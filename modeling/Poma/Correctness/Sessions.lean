import Poma.Host.Processes

/-!
# One session, one run

What the processes of a session do is watched event by event: the state file,
and how often a rebalance was started. A start is only made for the run the file
names, while the file says that an attempt is running and counts more attempts
than were started; a write keeps the run of the session, never uncounts an
attempt and never reopens a session.
-/

namespace Poma

open Interaction

/-- `ACTIVE_STATUSES`. -/
def activeStatuses : List String := terminalStatuses ++ [runningStatus, retryWaitStatus]

namespace SessionState

/-- The session has this run: its file was written by an attempt of it. -/
structure Bound (sessionDate runId : String) (payload : SessionState) : Prop where
  session : payload.lastRebalanceSession = some sessionDate
  run : payload.lastRebalanceRunId = some runId
  named : runId ≠ ""
  active : ∃ status, payload.lastRebalanceStatus = some status ∧ status ∈ activeStatuses

/-- The session has a terminal status. -/
structure Closed (sessionDate : String) (payload : SessionState) : Prop where
  session : payload.lastRebalanceSession = some sessionDate
  terminal : ∃ status, payload.lastRebalanceStatus = some status ∧ status ∈ terminalStatuses

/-- The file of one counted attempt of a run. -/
structure Attempt (sessionDate runId : String) (attempt : Nat) (payload : SessionState) :
    Prop where
  session : payload.lastRebalanceSession = some sessionDate
  run : payload.lastRebalanceRunId = some runId
  named : runId ≠ ""
  counted : payload.lastRebalanceAttemptCount = some attempt

/-- The attempt is running. -/
def Running (payload : SessionState) : Prop := payload.lastRebalanceStatus = some runningStatus

/-- The attempt has ended: it waits for another one, or its status is terminal. -/
def Ended (attempt : Nat) (payload : SessionState) : Prop :=
  (payload.lastRebalanceStatus = some retryWaitStatus ∧ attempt < maxRebalanceRetryAttempts) ∨
    ∃ status, payload.lastRebalanceStatus = some status ∧ status ∈ terminalStatuses

variable {sessionDate runId : String} {attempt : Nat} {payload : SessionState}

theorem terminal_ne_empty {status : String} (h : status ∈ activeStatuses) : status ≠ "" := by
  rintro rfl
  revert h
  decide

theorem running_not_terminal : runningStatus ∉ terminalStatuses := by decide

theorem retryWait_not_terminal : retryWaitStatus ∉ terminalStatuses := by decide

theorem Bound.status_eq (h : payload.Bound sessionDate runId) :
    ∃ status, payload.status sessionDate = some status ∧
      payload.lastRebalanceStatus = some status ∧ status ∈ activeStatuses := by
  obtain ⟨status, hstatus, hactive⟩ := h.active
  refine ⟨status, ?_, hstatus, hactive⟩
  simp [SessionState.status, h.session, hstatus, Option.filter, terminal_ne_empty hactive]

theorem Bound.runId_eq (h : payload.Bound sessionDate runId) :
    payload.runId sessionDate = some runId := by
  simp [SessionState.runId, h.session, h.run, Option.filter, h.named]

theorem Bound.runId_inj {other : String} (h : payload.Bound sessionDate runId)
    (hother : payload.Bound sessionDate other) : runId = other :=
  Option.some.inj (h.run.symm.trans hother.run)

theorem Closed.status_eq (h : payload.Closed sessionDate) :
    ∃ status, payload.status sessionDate = some status ∧ status ∈ terminalStatuses := by
  obtain ⟨status, hstatus, hterminal⟩ := h.terminal
  refine ⟨status, ?_, hterminal⟩
  simp [SessionState.status, h.session, hstatus, Option.filter,
    terminal_ne_empty (List.mem_append_left _ hterminal)]

theorem Attempt.count_eq (h : payload.Attempt sessionDate runId attempt) :
    payload.attemptCount sessionDate = attempt := by
  simp [SessionState.attemptCount, h.session, h.counted]

theorem Attempt.bound (h : payload.Attempt sessionDate runId attempt) {status : String}
    (hstatus : payload.lastRebalanceStatus = some status) (hactive : status ∈ activeStatuses) :
    payload.Bound sessionDate runId :=
  ⟨h.session, h.run, h.named, status, hstatus, hactive⟩

theorem Running.bound (hrunning : payload.Running)
    (h : payload.Attempt sessionDate runId attempt) : payload.Bound sessionDate runId :=
  h.bound hrunning (by decide)

theorem Running.not_closed (h : payload.Running) : ¬payload.Closed sessionDate := by
  rintro ⟨_, status, hstatus, hterminal⟩
  obtain rfl := Option.some.inj (h.symm.trans hstatus)
  exact running_not_terminal hterminal

theorem begun_attempt (hnamed : runId ≠ "") (startedAt attemptStartedAt : String) :
    (payload.begun sessionDate runId attempt startedAt attemptStartedAt).Attempt sessionDate runId
      attempt := ⟨rfl, rfl, hnamed, rfl⟩

theorem begun_running (startedAt attemptStartedAt : String) :
    (payload.begun sessionDate runId attempt startedAt attemptStartedAt).Running := rfl

theorem Attempt.retryWaiting (h : payload.Attempt sessionDate runId attempt) (reason : String)
    (reportPath : Option String) (finishedAt : String) :
    (payload.retryWaiting sessionDate runId reason reportPath finishedAt).Attempt sessionDate runId
      attempt := ⟨rfl, rfl, h.named, h.counted⟩

theorem Attempt.marked (h : payload.Attempt sessionDate runId attempt) (status : String)
    (reportPath error : Option String) (finishedAt : String) :
    (payload.marked sessionDate runId status reportPath error finishedAt).Attempt sessionDate runId
      attempt := ⟨rfl, rfl, h.named, h.counted⟩

theorem marked_closed {status : String} (h : status ∈ terminalStatuses)
    (reportPath error : Option String) (finishedAt : String) :
    (payload.marked sessionDate runId status reportPath error finishedAt).Closed sessionDate :=
  ⟨rfl, status, rfl, h⟩

end SessionState

/-- What is watched of a session. -/
structure Watch where
  file : SessionState
  starts : Nat

namespace Watch

/-- One event as it is watched. -/
def after (w : Watch) (event : Event commandSig) : Watch :=
  match event with
  | ⟨.writeState payload, .ok _⟩ => { w with file := payload }
  | ⟨.startRebalance _ _ _, _⟩ => { w with starts := w.starts + 1 }
  | _ => w

/-- What is watched at the end of a trace. -/
def afterAll (w : Watch) (τ : List (Event commandSig)) : Watch := τ.foldl after w

theorem afterAll_append (w : Watch) (τ τ' : List (Event commandSig)) :
    w.afterAll (τ ++ τ') = (w.afterAll τ).afterAll τ' := List.foldl_append

/-- What an operation may do to the session, as things stand. -/
def Permits (sessionDate : String) (w : Watch) : CommandOp → Prop
  | .startRebalance date runId _ => date = sessionDate ∧ w.file.Bound sessionDate runId ∧
      w.file.Running ∧ w.starts < w.file.attemptCount sessionDate
  | .writeState payload =>
    (∀ runId, w.file.Bound sessionDate runId → payload.Bound sessionDate runId ∧
      w.file.attemptCount sessionDate ≤ payload.attemptCount sessionDate) ∧
    (w.file.Closed sessionDate → payload.Closed sessionDate)
  | _ => True

/-- Every event of the trace is permitted when it comes. -/
def Legal (sessionDate : String) : Watch → List (Event commandSig) → Prop
  | _, [] => True
  | w, event :: τ => w.Permits sessionDate event.op ∧ Legal sessionDate (w.after event) τ

theorem legal_append {sessionDate : String} {w : Watch} {τ τ' : List (Event commandSig)} :
    Legal sessionDate w (τ ++ τ') ↔ Legal sessionDate w τ ∧ Legal sessionDate (w.afterAll τ) τ' := by
  induction τ generalizing w with
  | nil => simp [Legal, afterAll]
  | cons event τ ih =>
    simp only [List.cons_append, Legal, ih, and_assoc]
    rfl

/-- The starts of a session with a run are never more than the attempts it counts. -/
def Sound (sessionDate : String) (w : Watch) : Prop :=
  w.starts = 0 ∨ ∃ runId, w.file.Bound sessionDate runId ∧
    w.starts ≤ w.file.attemptCount sessionDate

variable {sessionDate : String} {w : Watch}

/-- What a permitted event leaves: a bound session stays bound to its run, and is not reopened. -/
theorem after_of_permits {event : Event commandSig} (h : w.Permits sessionDate event.op) :
    (∀ runId, w.file.Bound sessionDate runId → (w.after event).file.Bound sessionDate runId) ∧
      (w.file.Closed sessionDate → (w.after event).file.Closed sessionDate) ∧
      (w.Sound sessionDate → (w.after event).Sound sessionDate) := by
  obtain ⟨o, r⟩ := event
  cases o with
  | writeState payload =>
    cases r with
    | error e => exact ⟨fun _ h => h, fun h => h, fun h => h⟩
    | ok u =>
      refine ⟨fun runId hbound => (h.1 runId hbound).1, h.2, fun hsound => ?_⟩
      refine hsound.imp (fun hnone => hnone) fun hbound => ?_
      obtain ⟨runId, hbound, hle⟩ := hbound
      obtain ⟨hstays, hcount⟩ := h.1 runId hbound
      exact ⟨runId, hstays, hle.trans hcount⟩
  | startRebalance date runId force =>
    obtain ⟨rfl, hbound, _, hlt⟩ := h
    exact ⟨fun _ h => h, fun h => h, fun _ => Or.inr ⟨runId, hbound, hlt⟩⟩
  | _ => exact ⟨fun _ h => h, fun h => h, fun h => h⟩

/-- Over a legal trace a bound session stays bound, and a closed one stays closed. -/
theorem Legal.afterAll {τ : List (Event commandSig)} (h : Legal sessionDate w τ) :
    (∀ runId, w.file.Bound sessionDate runId → (w.afterAll τ).file.Bound sessionDate runId) ∧
      (w.file.Closed sessionDate → (w.afterAll τ).file.Closed sessionDate) ∧
      (w.Sound sessionDate → (w.afterAll τ).Sound sessionDate) := by
  induction τ generalizing w with
  | nil => exact ⟨fun _ h => h, fun h => h, fun h => h⟩
  | cons event τ ih =>
    obtain ⟨hbound, hclosed, hsound⟩ := after_of_permits h.1
    obtain ⟨hbound', hclosed', hsound'⟩ := ih h.2
    exact ⟨fun runId hb => hbound' runId (hbound runId hb), fun hc => hclosed' (hclosed hc),
      fun hs => hsound' (hsound hs)⟩

/-- A rebalance is started in a legal trace only for the run of a bound session. -/
theorem Legal.starts_bound {τ : List (Event commandSig)} (h : Legal sessionDate w τ)
    {runId : String} (hbound : w.file.Bound sessionDate runId) {date other : String}
    {force : Bool} {event : Event commandSig} (hevent : event ∈ τ)
    (hop : event.op = .startRebalance date other force) : other = runId := by
  obtain ⟨τ₁, τ₂, rfl⟩ := List.append_of_mem hevent
  obtain ⟨hfirst, hrest⟩ := legal_append.mp h
  have hpermits := hrest.1
  rw [hop] at hpermits
  exact hpermits.2.1.runId_inj (hfirst.afterAll.1 runId hbound)

/-- No rebalance is started in a legal trace of a closed session. -/
theorem Legal.no_start {τ : List (Event commandSig)} (h : Legal sessionDate w τ)
    (hclosed : w.file.Closed sessionDate) {event : Event commandSig} (hevent : event ∈ τ)
    (date runId : String) (force : Bool) : event.op ≠ .startRebalance date runId force := by
  obtain ⟨τ₁, τ₂, rfl⟩ := List.append_of_mem hevent
  obtain ⟨hfirst, hrest⟩ := legal_append.mp h
  intro hop
  have hpermits := hrest.1
  rw [hop] at hpermits
  exact hpermits.2.2.1.not_closed (hfirst.afterAll.2.1 hclosed)

end Watch

/-- The trace so far is legal and leaves this file after so many starts. -/
def Kept (sessionDate : String) (w : Watch) (starts : Nat) (τ : List (Event commandSig))
    (payload : SessionState) : Prop :=
  w.Legal sessionDate τ ∧ w.afterAll τ = ⟨payload, starts⟩

/-- An operation that neither writes the file nor starts a rebalance. -/
def CommandOp.Neutral : CommandOp → Prop
  | .writeState _ => False
  | .startRebalance _ _ _ => False
  | _ => True

theorem Kept.step {sessionDate : String} {w : Watch} {starts : Nat}
    {τ : List (Event commandSig)} {payload : SessionState}
    (h : Kept sessionDate w starts τ payload) {event : Event commandSig}
    (hpermits : Watch.Permits sessionDate ⟨payload, starts⟩ event.op) {v : Watch}
    (hafter : Watch.after ⟨payload, starts⟩ event = v) :
    Kept sessionDate w v.starts (τ ++ [event]) v.file := by
  refine ⟨Watch.legal_append.mpr ⟨h.1, ?_, trivial⟩, ?_⟩
  · rw [h.2]
    exact hpermits
  · rw [Watch.afterAll_append, h.2]
    exact hafter

/-- The answers a state file and a calendar of one session can give. -/
def Honest (sessionDate : String) (payload : SessionState) :
    (o : CommandOp) → Except Exn o.Ans → Prop
  | .readState, .ok read => read = payload
  | .shouldRebalanceNow, .ok decision =>
    MarketDecision.sessionDate decision = none ∨
      MarketDecision.sessionDate decision = some sessionDate
  | _, _ => True

section Rules

variable {P : CommandOracle → Prop} {sessionDate : String} {works : Prop}
  {w : Watch} {starts : Nat} {τ : List (Event commandSig)} {payload : SessionState} {α : Type}

/-- A program without writes and starts, from what it is answered. -/
theorem wp_query (hP : ∀ c, P c → c.InSession sessionDate) {p : C α} {R : α → Prop}
    (hp : p.Meets (S := commandSig) (Honest sessionDate payload) CommandOp.Neutral R)
    (h : Kept sessionDate w starts τ payload) :
    (commandWorld.restrict P).wp p (fun out τ' s' => s' = payload ∧
      Kept sessionDate w starts τ' payload ∧ ∀ a, out = .returned a → R a) τ payload := by
  refine System.wp_mono _ (System.wp_of_meets _ (I := fun τ' s' => s' = payload ∧
    Kept sessionDate w starts τ' payload) hp ?_ ⟨rfl, h⟩) fun _ _ _ h => ⟨h.1.1, h.1.2, h.2⟩
  rintro o hneutral ⟨c, hc⟩ τ' s' ⟨rfl, hkept⟩
  have hstep : ∀ r : Except Exn o.Ans, Kept sessionDate w starts (τ' ++ [⟨o, r⟩]) s' := by
    intro r
    refine hkept.step (v := ⟨s', starts⟩) ?_ ?_
    · cases o <;> trivial
    · cases o <;> first | rfl | exact hneutral.elim
  have hstate : ((commandWorld.restrict P).act ⟨c, hc⟩ s' o).2 = s' := by
    cases o with
    | writeState => exact hneutral.elim
    | readState =>
      show (commandWorld.act c s' .readState).2 = s'
      unfold commandWorld
      dsimp only
      cases c.answer .readState <;> rfl
    | _ => rfl
  refine ⟨?_, hstate, hstep _⟩
  cases o with
  | readState =>
    show Honest sessionDate s' .readState (commandWorld.act c s' .readState).1
    unfold commandWorld
    dsimp only
    cases c.answer .readState with
    | ok _ => rfl
    | error e => trivial
  | shouldRebalanceNow =>
    show Honest sessionDate s' .shouldRebalanceNow (c.answer .shouldRebalanceNow)
    cases hanswer : c.answer .shouldRebalanceNow with
    | ok decision => exact hP c hc decision hanswer
    | error e => trivial
  | _ => trivial

/-- One operation, by what the world answers. -/
theorem wp_askOutside {o : CommandOp} {Q : Post commandSig SessionState o.Ans}
    (hstop : Q .stopped τ payload)
    (hgo : ∀ c, P c → match (commandWorld.act c payload o).1 with
      | .ok a => Q (.returned a) (τ ++ [⟨o, .ok a⟩]) (commandWorld.act c payload o).2
      | .error e => Q (.raised e) (τ ++ [⟨o, .error e⟩]) (commandWorld.act c payload o).2) :
    (commandWorld.restrict P).wp (askOutside o) Q τ payload := by
  refine (System.wp_perform (commandWorld.restrict P) o Q τ payload).mpr ⟨hstop, ?_⟩
  rintro ⟨c, hc⟩
  have h := hgo c hc
  have hact : (commandWorld.restrict P).act ⟨c, hc⟩ payload o = commandWorld.act c payload o := rfl
  rw [hact]
  generalize commandWorld.act c payload o = acted at h
  obtain ⟨r, next⟩ := acted
  cases r <;> exact h

/-- A read of the state file returns it, unless it fails. -/
theorem wp_readState (hworks : works → ∀ c, P c → c.StateWorks)
    (h : Kept sessionDate w starts τ payload) :
    (commandWorld.restrict P).wp readState (fun out τ' s' => s' = payload ∧
      Kept sessionDate w starts τ' payload ∧ (∀ read, out = .returned read → read = payload) ∧
      ∀ e, out = .raised e → ¬works) τ payload := by
  have hstep : ∀ r, Kept sessionDate w starts (τ ++ [⟨.readState, r⟩]) payload :=
    fun r => h.step (v := ⟨payload, starts⟩) (show Watch.Permits sessionDate ⟨payload, starts⟩
      (⟨.readState, r⟩ : Event commandSig).op from trivial) rfl
  refine wp_askOutside ⟨rfl, h, by simp, by simp⟩ fun c hc => ?_
  unfold commandWorld
  dsimp only
  cases hanswer : c.answer .readState with
  | ok _ => exact ⟨rfl, hstep _, by rintro _ ⟨⟩; rfl, by simp⟩
  | error e =>
    refine ⟨rfl, hstep _, by simp, fun _ _ hw => ?_⟩
    obtain ⟨_, hok⟩ := (hworks hw c hc).1
    cases hanswer.symm.trans hok

/-- A write of the state file is whole, or fails without effect. -/
theorem wp_writeState (hworks : works → ∀ c, P c → c.StateWorks)
    (h : Kept sessionDate w starts τ payload) {next : SessionState}
    (hpermits : Watch.Permits sessionDate ⟨payload, starts⟩ (.writeState next)) :
    (commandWorld.restrict P).wp (writeState next) (fun out τ' s' =>
      Kept sessionDate w starts τ' s' ∧
      ((out = .returned () ∧ s' = next ∧ (⟨.writeState next, .ok ()⟩ : Event commandSig) ∈ τ') ∨
        (s' = payload ∧ (out = .stopped ∨ ∃ e, out = .raised e ∧ ¬works)))) τ payload := by
  refine wp_askOutside ⟨h, Or.inr ⟨rfl, Or.inl rfl⟩⟩ fun c hc => ?_
  unfold commandWorld
  dsimp only
  cases hanswer : c.answer (.writeState next) with
  | ok _ =>
    refine ⟨h.step (v := ⟨next, starts⟩) hpermits rfl, Or.inl ⟨rfl, rfl, ?_⟩⟩
    exact List.mem_append_right _ (List.mem_singleton_self _)
  | error e =>
    refine ⟨h.step (v := ⟨payload, starts⟩) hpermits rfl,
      Or.inr ⟨rfl, Or.inr ⟨e, rfl, fun hw => ?_⟩⟩⟩
    cases hanswer.symm.trans ((hworks hw c hc).2 next)

theorem wp_stateClock (h : Kept sessionDate w starts τ payload) :
    (commandWorld.restrict P).wp stateClock (fun out τ' s' => s' = payload ∧
      Kept sessionDate w starts τ' payload ∧ ∀ e, out ≠ .raised e) τ payload := by
  have hstep : ∀ r, Kept sessionDate w starts (τ ++ [⟨.utcNow, r⟩]) payload :=
    fun r => h.step (v := ⟨payload, starts⟩) (show Watch.Permits sessionDate ⟨payload, starts⟩
      (⟨.utcNow, r⟩ : Event commandSig).op from trivial) rfl
  exact wp_askOutside ⟨rfl, h, fun _ h => by cases h⟩ fun c _ =>
    ⟨rfl, hstep _, fun _ h => by cases h⟩

/-- A mark reads the file and writes it anew. -/
theorem wp_mark (hworks : works → ∀ c, P c → c.StateWorks)
    (h : Kept sessionDate w starts τ payload) {next : SessionState → String → SessionState}
    (hpermits : ∀ t, Watch.Permits sessionDate ⟨payload, starts⟩ (.writeState (next payload t))) :
    (commandWorld.restrict P).wp
      (readState.bind fun read => stateClock.bind fun t => writeState (next read t))
      (fun out τ' s' => Kept sessionDate w starts τ' s' ∧
        ((out = .returned () ∧ ∃ t, s' = next payload t) ∨
          (s' = payload ∧ (out = .stopped ∨ ∃ e, out = .raised e ∧ ¬works)))) τ payload := by
  refine System.wp_seq _ (wp_readState hworks h) ?_ ?_ ?_
  · rintro read τ₁ s₁ ⟨rfl, h₁, hread, _⟩
    obtain rfl := hread read rfl
    refine System.wp_seq _ (wp_stateClock h₁) ?_ ?_ ?_
    · rintro t τ₂ s₂ ⟨rfl, h₂, _⟩
      refine System.wp_mono _ (wp_writeState hworks h₂ (hpermits t)) ?_
      rintro out τ₃ s₃ ⟨h₃, hnext⟩
      exact ⟨h₃, hnext.imp (fun hwritten => ⟨hwritten.1, t, hwritten.2.1⟩) fun hsame => hsame⟩
    · rintro e τ₂ s₂ ⟨_, _, hnot⟩
      exact absurd rfl (hnot e)
    · rintro τ₂ s₂ ⟨rfl, h₂, _⟩
      exact ⟨h₂, Or.inr ⟨rfl, Or.inl rfl⟩⟩
  · rintro e τ₁ s₁ ⟨rfl, h₁, _, hnot⟩
    exact ⟨h₁, Or.inr ⟨rfl, Or.inr ⟨e, rfl, hnot e rfl⟩⟩⟩
  · rintro τ₁ s₁ ⟨rfl, h₁, _⟩
    exact ⟨h₁, Or.inr ⟨rfl, Or.inl rfl⟩⟩

/-- What is known while an attempt of a run is made. -/
structure InAttempt (sessionDate runId : String) (attempt : Nat) (payload : SessionState) : Prop
    where
  counted : payload.Attempt sessionDate runId attempt
  stage : payload.Running ∨ payload.Ended attempt

theorem InAttempt.bound {runId : String} {attempt : Nat}
    (h : InAttempt sessionDate runId attempt payload) : payload.Bound sessionDate runId := by
  rcases h.stage with hrunning | ⟨hwaiting, _⟩ | ⟨status, hstatus, hterminal⟩
  · exact hrunning.bound h.counted
  · exact h.counted.bound hwaiting (by decide)
  · exact h.counted.bound hstatus (List.mem_append_left _ hterminal)

/-- A write for the run of the attempt that keeps its count, and does not reopen the session. -/
theorem permits_write {runId : String} {attempt : Nat}
    (h : InAttempt sessionDate runId attempt payload) {next : SessionState}
    (hnext : InAttempt sessionDate runId attempt next)
    (hclosed : payload.Closed sessionDate → next.Closed sessionDate) :
    Watch.Permits sessionDate ⟨payload, starts⟩ (.writeState next) := by
  refine ⟨fun other hother => ?_, hclosed⟩
  obtain rfl := h.bound.runId_inj hother
  refine ⟨hnext.bound, ?_⟩
  show payload.attemptCount sessionDate ≤ next.attemptCount sessionDate
  rw [h.counted.count_eq, hnext.counted.count_eq]

theorem outcomeStatuses_terminal {status : String} (h : status ∈ outcomeStatuses) :
    status ∈ terminalStatuses := by
  revert status
  decide

/-- The trace counts an attempt of the session with this number or a higher one. -/
def Counts (sessionDate : String) (attempt : Nat) (τ : List (Event commandSig)) : Prop :=
  ∃ payload, (⟨.writeState payload, .ok ()⟩ : Event commandSig) ∈ τ ∧ payload.Running ∧
    attempt ≤ payload.attemptCount sessionDate

theorem Counts.mono {attempt : Nat} {τ' : List (Event commandSig)}
    (h : Counts sessionDate attempt τ) (hlonger : τ <+: τ') : Counts sessionDate attempt τ' := by
  obtain ⟨payload, hmem, hrunning, hle⟩ := h
  exact ⟨payload, hlonger.subset hmem, hrunning, hle⟩

/-- What a new attempt of a run leaves in the file and in the trace. -/
structure Begun (sessionDate runId : String) (w : Watch) (starts : Nat)
    (τ : List (Event commandSig)) (before payload : SessionState) (attempt : Nat) : Prop where
  counted : payload.Attempt sessionDate runId attempt
  running : payload.Running
  next : attempt ≤ before.attemptCount sessionDate + 1
  spare : starts < attempt
  counts : Counts sessionDate attempt τ
  kept : Kept sessionDate w starts τ payload

theorem wp_beginSession (hP : ∀ c, P c → c.InSession sessionDate)
    (hworks : works → ∀ c, P c → c.StateWorks) (h : Kept sessionDate w starts τ payload)
    {runId : String} (hnamed : runId ≠ "")
    (hsame : ∀ other, payload.Bound sessionDate other → runId = other)
    (hopen : ¬payload.Closed sessionDate) (hsound : Watch.Sound sessionDate ⟨payload, starts⟩) :
    (commandWorld.restrict P).wp (LocalState.beginSession sessionDate runId) (fun out τ' s' =>
      (s' = payload ∧ Kept sessionDate w starts τ' payload ∧ ∀ n, out ≠ .returned n) ∨
      ∃ n, out = .returned n ∧ Begun sessionDate runId w starts τ' payload s' n) τ payload := by
  unfold LocalState.beginSession
  refine System.wp_seq _ (wp_readState hworks h) ?_
    (fun e τ₁ s₁ h => Or.inl ⟨h.1, h.2.1, fun _ hn => by cases hn⟩)
    fun τ₁ s₁ h => Or.inl ⟨h.1, h.2.1, fun _ hn => by cases hn⟩
  rintro read τ₁ s₁ ⟨rfl, h₁, hread, _⟩
  obtain rfl := hread read rfl
  have hcount : (if read.SameRun sessionDate runId then LocalState.sessionAttemptCount sessionDate
      else .ret 0 : C Nat).Meets (S := commandSig) (Honest sessionDate read) CommandOp.Neutral
      fun previous => previous ≤ read.attemptCount sessionDate ∧
        (read.SameRun sessionDate runId → previous = read.attemptCount sessionDate) := by
    split
    · refine Prog.meets_bind (Prog.meets_perform (S := commandSig) (o := CommandOp.readState)
        trivial) fun again hagain => ?_
      obtain rfl : again = read := hagain
      exact ⟨le_rfl, fun _ => rfl⟩
    · rename_i hother
      exact ⟨Nat.zero_le _, fun hsame => absurd hsame hother⟩
  refine System.wp_seq _ (wp_query hP hcount h₁) ?_
    (fun e τ₂ s₂ h => Or.inl ⟨h.1, h.2.1, fun _ hn => by cases hn⟩)
    fun τ₂ s₂ h => Or.inl ⟨h.1, h.2.1, fun _ hn => by cases hn⟩
  rintro previous τ₂ s₂ ⟨rfl, h₂, hprevious⟩
  obtain ⟨hle, hsameRun⟩ := hprevious previous rfl
  refine System.wp_seq _ (wp_stateClock h₂) ?_
    (fun e τ₃ s₃ h => absurd rfl (h.2.2 e))
    fun τ₃ s₃ h => Or.inl ⟨h.1, h.2.1, fun _ hn => by cases hn⟩
  rintro startedAt τ₃ s₃ ⟨rfl, h₃, _⟩
  refine System.wp_seq _ (wp_stateClock h₃) ?_
    (fun e τ₄ s₄ h => absurd rfl (h.2.2 e))
    fun τ₄ s₄ h => Or.inl ⟨h.1, h.2.1, fun _ hn => by cases hn⟩
  rintro attemptStartedAt τ₄ s₄ ⟨rfl, h₄, _⟩
  have hattempt : (s₄.begun sessionDate runId (previous + 1) startedAt
      attemptStartedAt).Attempt sessionDate runId (previous + 1) :=
    SessionState.begun_attempt hnamed startedAt attemptStartedAt
  have hrunning : (s₄.begun sessionDate runId (previous + 1) startedAt
      attemptStartedAt).Running := SessionState.begun_running startedAt attemptStartedAt
  have hbound : ∀ other, s₄.Bound sessionDate other →
      runId = other ∧ previous = s₄.attemptCount sessionDate := by
    intro other hother
    have heq := hsame other hother
    refine ⟨heq, hsameRun ⟨hother.session, ?_⟩⟩
    rw [heq]
    exact hother.run
  have hpermits : Watch.Permits sessionDate ⟨s₄, starts⟩ (.writeState (s₄.begun sessionDate runId
      (previous + 1) startedAt attemptStartedAt)) := by
    refine ⟨fun other hother => ?_, fun hclosed => absurd hclosed hopen⟩
    obtain ⟨rfl, hsame⟩ := hbound other hother
    refine ⟨hrunning.bound hattempt, ?_⟩
    rw [hattempt.count_eq, hsame]
    exact Nat.le_succ _
  refine System.wp_seq _ (wp_writeState hworks h₄ hpermits) ?_ ?_ ?_
  · rintro u τ₅ s₅ ⟨h₅, ⟨_, rfl, hmem⟩ | ⟨_, hout | ⟨e, hout, _⟩⟩⟩
    · refine Or.inr ⟨previous + 1, rfl, hattempt, hrunning, Nat.succ_le_succ hle, ?_,
        ⟨_, hmem, hrunning, hattempt.count_eq.ge⟩, h₅⟩
      rcases hsound with hnone | ⟨other, hother, hstarts⟩
      · have hzero : starts = 0 := hnone
        omega
      · have hcounted := (hbound other hother).2
        have hstarts : starts ≤ s₄.attemptCount sessionDate := hstarts
        omega
    · cases hout
    · cases hout
  · rintro e τ₅ s₅ ⟨h₅, ⟨hout, _⟩ | ⟨rfl, _⟩⟩
    · cases hout
    · exact Or.inl ⟨rfl, h₅, fun _ hn => by cases hn⟩
  · rintro τ₅ s₅ ⟨h₅, ⟨hout, _⟩ | ⟨rfl, _⟩⟩
    · cases hout
    · exact Or.inl ⟨rfl, h₅, fun _ hn => by cases hn⟩

/-- A mark within an attempt leaves an attempt that has ended, or fails without effect. -/
theorem wp_markAttempt (hworks : works → ∀ c, P c → c.StateWorks) {runId : String} {attempt : Nat}
    (h : Kept sessionDate w starts τ payload) (hin : InAttempt sessionDate runId attempt payload)
    {next : SessionState → String → SessionState}
    (hnext : ∀ t, (next payload t).Attempt sessionDate runId attempt ∧
      (next payload t).Ended attempt ∧
      (payload.Closed sessionDate → (next payload t).Closed sessionDate)) :
    (commandWorld.restrict P).wp
      (readState.bind fun read => stateClock.bind fun t => writeState (next read t))
      (fun out τ' s' => Kept sessionDate w starts τ' s' ∧
        InAttempt sessionDate runId attempt s' ∧
        ((out = .returned () ∧ s'.Ended attempt ∧
            (payload.Closed sessionDate → s'.Closed sessionDate) ∧ ∃ t, s' = next payload t) ∨
          (s' = payload ∧ (out = .stopped ∨ ∃ e, out = .raised e ∧ ¬works)))) τ payload := by
  refine System.wp_mono _ (wp_mark hworks h fun t => permits_write hin
    ⟨(hnext t).1, Or.inr (hnext t).2.1⟩ (hnext t).2.2) ?_
  rintro out τ' s' ⟨hkept, ⟨hout, t, rfl⟩ | ⟨rfl, hsame⟩⟩
  · obtain ⟨hattempt, hended, hclosed⟩ := hnext t
    exact ⟨hkept, ⟨hattempt, Or.inr hended⟩, Or.inl ⟨hout, hended, hclosed, t, rfl⟩⟩
  · exact ⟨hkept, hin, Or.inr ⟨rfl, hsame⟩⟩

theorem sendAlert_neutral (text : String) :
    (sendAlert text).Uses (S := commandSig) CommandOp.Neutral :=
  Prog.uses_perform (S := commandSig) (o := CommandOp.sendAlert text) trivial

/-- The final mark of an attempt. -/
theorem wp_markSession (hworks : works → ∀ c, P c → c.StateWorks) {runId : String}
    {attempt : Nat} (h : Kept sessionDate w starts τ payload)
    (hin : InAttempt sessionDate runId attempt payload) {status : String}
    (hterminal : status ∈ terminalStatuses) (reportPath error : Option String) :
    (commandWorld.restrict P).wp (LocalState.markSession sessionDate runId status reportPath error)
      (fun out τ' s' => Kept sessionDate w starts τ' s' ∧
        InAttempt sessionDate runId attempt s' ∧
        ((out = .returned () ∧ s'.Closed sessionDate) ∨
          (s' = payload ∧ (out = .stopped ∨ ∃ e, out = .raised e ∧ ¬works)))) τ payload := by
  have hclosed : ∀ t, (payload.marked sessionDate runId status reportPath error t).Closed
      sessionDate := fun t => SessionState.marked_closed hterminal reportPath error t
  refine System.wp_mono _ (wp_markAttempt hworks h hin fun t =>
    ⟨hin.counted.marked status reportPath error t, Or.inr (hclosed t).terminal,
      fun _ => hclosed t⟩) ?_
  rintro out τ' s' ⟨hkept, hin', hcase⟩
  refine ⟨hkept, hin', hcase.imp_left ?_⟩
  rintro ⟨hout, _, _, t, rfl⟩
  exact ⟨hout, hclosed t⟩

/-- The mark that lets a later tick try again. -/
theorem wp_markRetryWait (hworks : works → ∀ c, P c → c.StateWorks) {runId : String}
    {attempt : Nat} (h : Kept sessionDate w starts τ payload)
    (hattempt : payload.Attempt sessionDate runId attempt) (hrunning : payload.Running)
    (hlt : attempt < maxRebalanceRetryAttempts) (reason : String) (reportPath : Option String) :
    (commandWorld.restrict P).wp (LocalState.markRetryWait sessionDate runId reason reportPath)
      (fun out τ' s' => Kept sessionDate w starts τ' s' ∧
        InAttempt sessionDate runId attempt s' ∧
        ((out = .returned () ∧ s'.Ended attempt) ∨
          (s' = payload ∧ (out = .stopped ∨ ∃ e, out = .raised e ∧ ¬works)))) τ payload := by
  have hin : InAttempt sessionDate runId attempt payload := ⟨hattempt, Or.inl hrunning⟩
  refine System.wp_mono _ (wp_markAttempt hworks h hin fun t =>
    ⟨hattempt.retryWaiting reason reportPath t, Or.inl ⟨rfl, hlt⟩,
      fun hclosed => absurd hclosed hrunning.not_closed⟩) ?_
  rintro out τ' s' ⟨hkept, hin', hcase⟩
  refine ⟨hkept, hin', hcase.imp_left ?_⟩
  rintro ⟨hout, hended, _⟩
  exact ⟨hout, hended⟩

/-- The attempt of a tick ends with a mark, or raises while it is still running; it raises later
only when the retry budget is spent. -/
theorem wp_attemptSession (hP : ∀ c, P c → c.InSession sessionDate)
    (hworks : works → ∀ c, P c → c.StateWorks) {runId : String} {attempt : Nat}
    (h : Kept sessionDate w starts τ payload)
    (hattempt : payload.Attempt sessionDate runId attempt) (hrunning : payload.Running)
    (hspare : starts < attempt) (forceDryRun : Bool) :
    (commandWorld.restrict P).wp (attemptSession sessionDate runId forceDryRun attempt)
      (fun out τ' s' => ∃ starts', Kept sessionDate w starts' τ' s' ∧
        InAttempt sessionDate runId attempt s' ∧
        (out = .returned () → s'.Ended attempt) ∧
        ∀ e, out = .raised e → s'.Running ∨
          (s'.Closed sessionDate ∧ maxRebalanceRetryAttempts ≤ attempt)) τ payload := by
  have hin : InAttempt sessionDate runId attempt payload := ⟨hattempt, Or.inl hrunning⟩
  have hstart : ∀ r, Kept sessionDate w (starts + 1)
      (τ ++ [⟨.startRebalance sessionDate runId forceDryRun, r⟩]) payload := by
    intro r
    refine h.step (v := ⟨payload, starts + 1⟩) ?_ rfl
    refine ⟨rfl, hin.bound, hrunning, ?_⟩
    show starts < payload.attemptCount sessionDate
    rw [hattempt.count_eq]
    exact hspare
  -- what the call comes back with, or the exception it raises
  have hcall : (commandWorld.restrict P).wp (attemptRebalance sessionDate runId forceDryRun)
      (fun out τ' s' => s' = payload ∧ ∃ starts', Kept sessionDate w starts' τ' payload) τ
      payload := by
    unfold attemptRebalance
    refine System.wp_seq _ (P := fun out τ' s' => s' = payload ∧
      ∃ starts', Kept sessionDate w starts' τ' payload) ?_ ?_ (fun _ _ _ h => h) fun _ _ h => h
    · refine wp_askOutside ⟨rfl, starts, h⟩ fun c _ => ?_
      unfold commandWorld
      dsimp only
      cases c.answer (.startRebalance sessionDate runId forceDryRun) with
      | ok _ => exact ⟨rfl, starts + 1, hstart _⟩
      | error e => exact ⟨rfl, starts + 1, hstart _⟩
    · rintro _ τ₁ s₁ ⟨rfl, starts₁, h₁⟩
      have hneutral : (askOutside .rebalanceOutcome).Uses (S := commandSig) CommandOp.Neutral :=
        Prog.uses_perform (S := commandSig) (o := CommandOp.rebalanceOutcome) trivial
      exact System.wp_mono _ (wp_query hP (.of_uses hneutral) h₁)
        fun out τ₂ s₂ h₂ => ⟨h₂.1, starts₁, h₂.2.1⟩
  unfold attemptSession
  refine System.wp_seq _ hcall ?_ ?_ ?_
  · rintro result τ₁ s₁ ⟨rfl, starts₁, h₁⟩
    have hgraded : result.1.1.status ∈ terminalStatuses := outcomeStatuses_terminal result.1.2
    have hmarked := wp_markSession hworks h₁ hin hgraded (some result.2) none
    dsimp only
    split
    · rename_i reason _
      split
      · rename_i hlt
        refine System.wp_mono _ (wp_markRetryWait hworks h₁ hattempt hrunning hlt reason
          (some result.2)) ?_
        rintro out τ₂ s₂ ⟨h₂, hin₂, ⟨rfl, hended⟩ | ⟨rfl, hout⟩⟩
        · exact ⟨starts₁, h₂, hin₂, fun _ => hended, fun _ he => by cases he⟩
        · refine ⟨starts₁, h₂, hin₂, fun hret => ?_, fun _ _ => Or.inl hrunning⟩
          rcases hout with hout | ⟨e, hout, _⟩ <;> cases hout.symm.trans hret
      · rename_i hlast
        have hspent : maxRebalanceRetryAttempts ≤ attempt := Nat.not_lt.mp hlast
        refine System.wp_seq _ hmarked ?_ ?_ ?_
        · rintro _ τ₂ s₂ ⟨h₂, hin₂, ⟨_, hclosed⟩ | ⟨_, hout | ⟨e, hout, _⟩⟩⟩
          · refine System.wp_mono _ (wp_query hP (.of_uses (sendAlert_neutral _)) h₂) ?_
            rintro out τ₃ s₃ ⟨rfl, h₃, _⟩
            exact ⟨starts₁, h₃, hin₂, fun _ => Or.inr hclosed.terminal,
              fun _ _ => Or.inr ⟨hclosed, hspent⟩⟩
          · cases hout
          · cases hout
        · rintro e τ₂ s₂ ⟨h₂, hin₂, ⟨hout, _⟩ | ⟨rfl, _⟩⟩
          · cases hout
          · exact ⟨starts₁, h₂, hin₂, by simp, fun _ _ => Or.inl hrunning⟩
        · rintro τ₂ s₂ ⟨h₂, hin₂, _⟩
          exact ⟨starts₁, h₂, hin₂, by simp, fun _ he => by cases he⟩
    · refine System.wp_mono _ hmarked ?_
      rintro out τ₂ s₂ ⟨h₂, hin₂, ⟨rfl, hclosed⟩ | ⟨rfl, hout⟩⟩
      · exact ⟨starts₁, h₂, hin₂, fun _ => Or.inr hclosed.terminal, fun _ he => by cases he⟩
      · refine ⟨starts₁, h₂, hin₂, fun hret => ?_, fun _ _ => Or.inl hrunning⟩
        rcases hout with hout | ⟨e, hout, _⟩ <;> cases hout.symm.trans hret
  · rintro e τ₁ s₁ ⟨rfl, starts₁, h₁⟩
    exact ⟨starts₁, h₁, hin, by simp, fun _ _ => Or.inl hrunning⟩
  · rintro τ₁ s₁ ⟨rfl, starts₁, h₁⟩
    exact ⟨starts₁, h₁, hin, by simp, fun _ he => by cases he⟩

/-- The exception handler marks the attempt; what it re-raises does not change the mark. -/
theorem wp_attemptRaised (hP : ∀ c, P c → c.InSession sessionDate)
    (hworks : works → ∀ c, P c → c.StateWorks) {runId : String} {attempt : Nat}
    (h : Kept sessionDate w starts τ payload) (hin : InAttempt sessionDate runId attempt payload)
    (hstage : payload.Running ∨
      (payload.Closed sessionDate ∧ maxRebalanceRetryAttempts ≤ attempt)) (e : Exn) :
    (commandWorld.restrict P).wp (attemptRaised sessionDate runId attempt e)
      (fun out τ' s' => Kept sessionDate w starts τ' s' ∧
        InAttempt sessionDate runId attempt s' ∧
        (works → out ≠ .stopped → s'.Ended attempt)) τ payload := by
  have hfailed : (commandWorld.restrict P).wp (markFailed sessionDate runId e)
      (fun out τ' s' => Kept sessionDate w starts τ' s' ∧
        InAttempt sessionDate runId attempt s' ∧
        (works → out ≠ .stopped → s'.Ended attempt)) τ payload := by
    refine System.wp_seq _ (wp_markSession hworks h hin (by decide) none (some e.message)) ?_ ?_ ?_
    · rintro _ τ₁ s₁ ⟨h₁, hin₁, ⟨_, hclosed⟩ | ⟨_, hout | ⟨e', hout, _⟩⟩⟩
      · refine System.wp_seq _ (wp_query hP (.of_uses (sendAlert_neutral _)) h₁) ?_ ?_ ?_
        · rintro _ τ₂ s₂ ⟨rfl, h₂, _⟩
          exact ⟨h₂, hin₁, fun _ _ => Or.inr hclosed.terminal⟩
        · rintro e' τ₂ s₂ ⟨rfl, h₂, _⟩
          exact ⟨h₂, hin₁, fun _ _ => Or.inr hclosed.terminal⟩
        · rintro τ₂ s₂ ⟨rfl, h₂, _⟩
          exact ⟨h₂, hin₁, fun _ hnot => absurd rfl hnot⟩
      · cases hout
      · cases hout
    · rintro e' τ₁ s₁ ⟨h₁, hin₁, ⟨hout, _⟩ | ⟨_, hout | ⟨_, _, hnot⟩⟩⟩
      · cases hout
      · cases hout
      · exact ⟨h₁, hin₁, fun hw => absurd hw hnot⟩
    · rintro τ₁ s₁ ⟨h₁, hin₁, _⟩
      exact ⟨h₁, hin₁, fun _ hnot => absurd rfl hnot⟩
  unfold attemptRaised
  split
  · rename_i reason _
    split
    · rename_i hlt
      have hrunning : payload.Running := by
        rcases hstage with hrunning | ⟨_, hspent⟩
        · exact hrunning
        · omega
      refine System.wp_seq _ (wp_markRetryWait hworks h hin.counted hrunning hlt reason none) ?_ ?_ ?_
      · rintro _ τ₁ s₁ ⟨h₁, hin₁, ⟨_, hended⟩ | ⟨_, hout | ⟨e', hout, _⟩⟩⟩
        · have hneutral : (if attempt = 1 then
              sendAlert (willRetryAlert sessionDate attempt reason) else .ret () : C Unit).Uses
              (S := commandSig) CommandOp.Neutral := by
            split
            · exact sendAlert_neutral _
            · trivial
          refine System.wp_mono _ (wp_query hP (.of_uses hneutral) h₁) ?_
          rintro out τ₂ s₂ ⟨rfl, h₂, _⟩
          exact ⟨h₂, hin₁, fun _ _ => hended⟩
        · cases hout
        · cases hout
      · rintro e' τ₁ s₁ ⟨h₁, hin₁, ⟨hout, _⟩ | ⟨_, hout | ⟨_, _, hnot⟩⟩⟩
        · cases hout
        · cases hout
        · exact ⟨h₁, hin₁, fun hw => absurd hw hnot⟩
      · rintro τ₁ s₁ ⟨h₁, hin₁, _⟩
        exact ⟨h₁, hin₁, fun _ hnot => absurd rfl hnot⟩
    · exact hfailed
  · exact hfailed

/-- What a tick leaves: the file as it was, or the file of a new attempt. -/
def Ticked (sessionDate : String) (works : Prop) (before : SessionState)
    (out : Outcome Exn Unit) (τ : List (Event commandSig)) (payload : SessionState) : Prop :=
  payload = before ∨ ∃ runId attempt, ¬before.Closed sessionDate ∧
    InAttempt sessionDate runId attempt payload ∧
    attempt ≤ before.attemptCount sessionDate + 1 ∧ Counts sessionDate attempt τ ∧
    (works → out ≠ .stopped → payload.Ended attempt)

/-- An attempt whose run is chosen: it begins, is made, and is marked. -/
theorem wp_beginAttempt (hP : ∀ c, P c → c.InSession sessionDate)
    (hworks : works → ∀ c, P c → c.StateWorks) (h : Kept sessionDate w starts τ payload)
    {runId : String} (hnamed : runId ≠ "")
    (hsame : ∀ other, payload.Bound sessionDate other → runId = other)
    (hopen : ¬payload.Closed sessionDate) (hsound : Watch.Sound sessionDate ⟨payload, starts⟩)
    (forceDryRun : Bool) :
    (commandWorld.restrict P).wp ((LocalState.beginSession sessionDate runId).bind fun attempt =>
        (attemptSession sessionDate runId forceDryRun attempt).catching
          (attemptRaised sessionDate runId attempt))
      (fun out τ' s' => (∃ starts', Kept sessionDate w starts' τ' s') ∧
        Ticked sessionDate works payload out τ' s') τ payload := by
  refine System.wp_seq _ (wp_beginSession hP hworks h hnamed hsame hopen hsound) ?_ ?_ ?_
  · rintro attempt τ₁ s₁ (⟨_, _, hnot⟩ | ⟨n, hn, hbegun⟩)
    · exact absurd rfl (hnot attempt)
    obtain rfl : attempt = n := Outcome.returned.inj hn
    have hattempted := wp_attemptSession hP hworks hbegun.kept hbegun.counted hbegun.running
      hbegun.spare forceDryRun
    have hleft : ∀ {out : Outcome Exn Unit} {τ' s'}, τ₁ <+: τ' →
        InAttempt sessionDate runId attempt s' →
        (works → out ≠ .stopped → s'.Ended attempt) →
        Ticked sessionDate works payload out τ' s' := fun hlonger hin hended =>
      Or.inr ⟨runId, attempt, hopen, hin, hbegun.next, hbegun.counts.mono hlonger, hended⟩
    refine System.wp_catching _ (System.wp_and _ hattempted (System.wp_extends _ _ τ₁ s₁)) ?_ ?_ ?_
    · rintro _ τ₂ s₂ ⟨⟨starts₂, h₂, hin, hret, _⟩, hlonger⟩
      exact ⟨⟨starts₂, h₂⟩, hleft hlonger hin fun _ _ => hret rfl⟩
    · rintro e τ₂ s₂ ⟨⟨starts₂, h₂, hin, _, hraised⟩, hlonger⟩
      refine System.wp_mono _ (System.wp_and _ (wp_attemptRaised hP hworks h₂ hin (hraised e rfl) e)
        (System.wp_extends _ _ τ₂ s₂)) ?_
      rintro out τ₃ s₃ ⟨⟨h₃, hin₃, hended⟩, hlonger₃⟩
      exact ⟨⟨starts₂, h₃⟩, hleft (hlonger.trans hlonger₃) hin₃ hended⟩
    · rintro τ₂ s₂ ⟨⟨starts₂, h₂, hin, _⟩, hlonger⟩
      exact ⟨⟨starts₂, h₂⟩, hleft hlonger hin fun _ hnot => absurd rfl hnot⟩
  · rintro e τ₁ s₁ (⟨rfl, h₁, _⟩ | ⟨n, hn, _⟩)
    · exact ⟨⟨starts, h₁⟩, Or.inl rfl⟩
    · cases hn
  · rintro τ₁ s₁ (⟨rfl, h₁, _⟩ | ⟨n, hn, _⟩)
    · exact ⟨⟨starts, h₁⟩, Or.inl rfl⟩
    · cases hn

theorem meets_chooseRunId {rely : (o : CommandOp) → Except Exn o.Ans → Prop}
    {stored : Option String} (hstored : ∀ runId, stored = some runId → runId ≠ "") :
    (chooseRunId stored).Meets (S := commandSig) rely CommandOp.Neutral fun runId =>
      runId ≠ "" ∧ ∀ other, stored = some other → runId = other := by
  cases stored with
  | some runId => exact ⟨hstored runId rfl, fun other h => Option.some.inj h⟩
  | none =>
    refine Prog.meets_bind (R := fun _ => True) (.of_uses (Prog.uses_perform (S := commandSig)
      (o := CommandOp.utcRunId) trivial)) fun (stamp : String) _ => ⟨?_, fun _ h => by cases h⟩
    intro hempty
    have hlength := congrArg String.length hempty
    rw [String.length_append] at hlength
    have hpositive : "rebalance-".length = 10 := by decide +kernel
    have hzero : "".length = 0 := by decide +kernel
    omega

/-- A tick of a session that is not closed. -/
theorem wp_monitorSession (hP : ∀ c, P c → c.InSession sessionDate)
    (hworks : works → ∀ c, P c → c.StateWorks) (h : Kept sessionDate w starts τ payload)
    (hopen : ¬payload.Closed sessionDate) (hsound : Watch.Sound sessionDate ⟨payload, starts⟩)
    {resuming : Bool}
    (hresuming : ∀ other, payload.Bound sessionDate other → resuming = true) (forceDryRun : Bool) :
    (commandWorld.restrict P).wp (monitorSession sessionDate resuming forceDryRun)
      (fun out τ' s' => (∃ starts', Kept sessionDate w starts' τ' s') ∧
        Ticked sessionDate works payload out τ' s') τ payload := by
  have hstored : (if resuming then LocalState.sessionRunId sessionDate else .ret none :
      C (Option String)).Meets (S := commandSig) (Honest sessionDate payload) CommandOp.Neutral
      fun stored => stored = if resuming then payload.runId sessionDate else none := by
    cases resuming with
    | true =>
      refine Prog.meets_bind (Prog.meets_perform (S := commandSig) (o := CommandOp.readState)
        trivial) fun read hread => ?_
      obtain rfl : read = payload := hread
      rfl
    | false => rfl
  unfold monitorSession
  refine System.wp_seq _ (wp_query hP hstored h) ?_ ?_ ?_
  · rintro stored τ₁ s₁ ⟨rfl, h₁, hstored₁⟩
    have hstored₁ := hstored₁ stored rfl
    have hvalid : ∀ runId, stored = some runId → runId ≠ "" := by
      rintro runId rfl
      cases resuming with
      | false => cases hstored₁
      | true =>
        have hrun : some runId = s₁.runId sessionDate := hstored₁
        unfold SessionState.runId at hrun
        split at hrun
        · cases hrun
        · have hfilter := (Option.filter_eq_some_iff.mp hrun.symm).2
          simpa using hfilter
    refine System.wp_seq _ (wp_query hP (meets_chooseRunId hvalid) h₁) ?_ ?_ ?_
    · rintro runId τ₂ s₂ ⟨rfl, h₂, hchosen⟩
      obtain ⟨hnamed, hkeeps⟩ := hchosen runId rfl
      refine wp_beginAttempt hP hworks h₂ hnamed (fun other hother => ?_) hopen hsound forceDryRun
      refine hkeeps other ?_
      rw [hstored₁, hresuming other hother, if_pos rfl]
      exact hother.runId_eq
    · rintro e τ₂ s₂ ⟨rfl, h₂, _⟩
      exact ⟨⟨starts, h₂⟩, Or.inl rfl⟩
    · rintro τ₂ s₂ ⟨rfl, h₂, _⟩
      exact ⟨⟨starts, h₂⟩, Or.inl rfl⟩
  · rintro e τ₁ s₁ ⟨rfl, h₁, _⟩
    exact ⟨⟨starts, h₁⟩, Or.inl rfl⟩
  · rintro τ₁ s₁ ⟨rfl, h₁, _⟩
    exact ⟨⟨starts, h₁⟩, Or.inl rfl⟩

/-- A tick of the monitor, from any state file. -/
theorem wp_monitor (hP : ∀ c, P c → c.InSession sessionDate)
    (hworks : works → ∀ c, P c → c.StateWorks) (h : Kept sessionDate w starts τ payload)
    (hsound : Watch.Sound sessionDate ⟨payload, starts⟩) (forceDryRun : Bool) :
    (commandWorld.restrict P).wp (monitor forceDryRun)
      (fun out τ' s' => (∃ starts', Kept sessionDate w starts' τ' s') ∧
        Ticked sessionDate works payload out τ' s') τ payload := by
  have hidle : ∀ {out : Outcome Exn Unit} {τ'}, Kept sessionDate w starts τ' payload →
      (∃ starts', Kept sessionDate w starts' τ' payload) ∧
        Ticked sessionDate works payload out τ' payload :=
    fun hkept => ⟨⟨starts, hkept⟩, Or.inl rfl⟩
  have hdecision : (askOutside .shouldRebalanceNow).Meets (S := commandSig)
      (Honest sessionDate payload) CommandOp.Neutral fun decision : MarketDecision =>
        decision.sessionDate = none ∨ decision.sessionDate = some sessionDate :=
    Prog.meets_perform (S := commandSig) (o := CommandOp.shouldRebalanceNow) trivial
  unfold monitor
  refine System.wp_seq _ (wp_query hP hdecision h) ?_ ?_ ?_
  · rintro (decision : MarketDecision) τ₁ s₁ ⟨rfl, h₁, hsession⟩
    have hsession := hsession decision rfl
    cases hdate : decision.sessionDate.filter (· ≠ "") with
    | none => exact hidle h₁
    | some date =>
      obtain rfl : date = sessionDate := by
        have hsome := (Option.filter_eq_some_iff.mp hdate).1
        rcases hsession with hnone | hsame
        · cases hsome.symm.trans hnone
        · exact Option.some.inj (hsome.symm.trans hsame)
      have hstatus : (LocalState.sessionStatus date).Meets (S := commandSig)
          (Honest date s₁) CommandOp.Neutral fun status => status = s₁.status date := by
        refine Prog.meets_bind (Prog.meets_perform (S := commandSig) (o := CommandOp.readState)
          trivial) fun read hread => ?_
        obtain rfl : read = s₁ := hread
        rfl
      refine System.wp_seq _ (wp_query hP hstatus h₁) ?_ ?_ ?_
      · rintro status τ₂ s₂ ⟨rfl, h₂, hread⟩
        obtain rfl := hread status rfl
        split
        · exact hidle h₂
        rename_i hterminal
        have hopen : ¬s₂.Closed date := by
          intro hclosed
          obtain ⟨status, hstatus, hmem⟩ := hclosed.status_eq
          apply hterminal
          rw [hstatus]
          exact decide_eq_true hmem
        have hresuming : ∀ other, s₂.Bound date other →
            (s₂.status date).any (· ∈ [runningStatus, retryWaitStatus]) = true := by
          intro other hother
          obtain ⟨status, hstatus, hstored, hactive⟩ := hother.status_eq
          rw [hstatus]
          rcases List.mem_append.mp hactive with hmem | hmem
          · exact absurd ⟨hother.session, status, hstored, hmem⟩ hopen
          · exact decide_eq_true hmem
        dsimp only
        split
        · exact hidle h₂
        · exact wp_monitorSession hP hworks h₂ hopen hsound hresuming forceDryRun
      · rintro e τ₂ s₂ ⟨rfl, h₂, _⟩
        exact hidle h₂
      · rintro τ₂ s₂ ⟨rfl, h₂, _⟩
        exact hidle h₂
  · rintro e τ₁ s₁ ⟨rfl, h₁, _⟩
    exact hidle h₁
  · rintro τ₁ s₁ ⟨rfl, h₁, _⟩
    exact hidle h₁

/-- What a reconciliation leaves of a session: its count, and its being closed. -/
structure Upgraded (sessionDate : String) (before payload : SessionState) : Prop where
  count : payload.attemptCount sessionDate = before.attemptCount sessionDate
  closed : before.Closed sessionDate → payload.Closed sessionDate

theorem Upgraded.refl (payload : SessionState) : Upgraded sessionDate payload payload :=
  ⟨rfl, id⟩

theorem Upgraded.trans {a b c : SessionState} (hab : Upgraded sessionDate a b)
    (hbc : Upgraded sessionDate b c) : Upgraded sessionDate a c :=
  ⟨hbc.count.trans hab.count, fun h => hbc.closed (hab.closed h)⟩

/-- The mark of an upgrade keeps the session, its run and its count. -/
theorem marked_upgrades {date runId status : String} (hrun : payload.runId date = some runId)
    (hterminal : status ∈ terminalStatuses) (t : String) :
    Watch.Permits sessionDate ⟨payload, starts⟩
        (.writeState (payload.marked date runId status none none t)) ∧
      Upgraded sessionDate payload (payload.marked date runId status none none t) := by
  have hsession : payload.lastRebalanceSession = some date := by
    by_contra hne
    simp [SessionState.runId, hne] at hrun
  have hlast : payload.lastRebalanceRunId = some runId := by
    rw [SessionState.runId, if_neg (not_not.mpr hsession)] at hrun
    exact (Option.filter_eq_some_iff.mp hrun).1
  have hcount : (payload.marked date runId status none none t).attemptCount sessionDate =
      payload.attemptCount sessionDate := by
    simp [SessionState.attemptCount, SessionState.marked, hsession]
  have hclosed : payload.Closed sessionDate →
      (payload.marked date runId status none none t).Closed sessionDate := by
    intro hclosed
    obtain rfl := Option.some.inj (hsession.symm.trans hclosed.session)
    exact SessionState.marked_closed hterminal none none t
  refine ⟨⟨fun other hother => ?_, hclosed⟩, hcount, hclosed⟩
  obtain rfl := Option.some.inj (hsession.symm.trans hother.session)
  obtain rfl := Option.some.inj (hlast.symm.trans hother.run)
  exact ⟨⟨rfl, rfl, hother.named, status, rfl, List.mem_append_left _ hterminal⟩, hcount.ge⟩

/-- An upgrade follows what the file says of the run. -/
theorem wp_upgradeSession (hP : ∀ c, P c → c.InSession sessionDate)
    (h : Kept sessionDate w starts τ payload) (runId date : String) (quality : QualityStatus) :
    (commandWorld.restrict P).wp (upgradeSession runId date quality)
      (fun _ τ' s' => Kept sessionDate w starts τ' s' ∧ Upgraded sessionDate payload s')
      τ payload := by
  have hread : ∀ {α : Type} (query : SessionState → α) (s : SessionState),
      (readState.bind fun read => .ret (query read) : C α).Meets (S := commandSig)
        (Honest sessionDate s) CommandOp.Neutral fun a => a = query s := by
    intro α query s
    refine Prog.meets_bind (Prog.meets_perform (S := commandSig) (o := CommandOp.readState)
      trivial) fun read hread => ?_
    obtain rfl : read = s := hread
    rfl
  unfold upgradeSession
  refine System.wp_seq _ (wp_query hP (hread (·.runId date) payload) h) ?_ ?_ ?_
  · rintro current τ₁ s₁ ⟨rfl, h₁, hcurrent⟩
    obtain rfl := hcurrent current rfl
    split
    · exact ⟨h₁, .refl _⟩
    rename_i hrun
    refine System.wp_seq _ (wp_query hP (hread (·.status date) s₁) h₁) ?_ ?_ ?_
    · rintro status τ₂ s₂ ⟨rfl, h₂, hstatus⟩
      obtain rfl := hstatus status rfl
      split
      · exact ⟨h₂, .refl _⟩
      have hmark : ∀ {status}, status ∈ terminalStatuses → (commandWorld.restrict P).wp
          (LocalState.markSession date runId status none none) (fun _ τ' s' =>
            Kept sessionDate w starts τ' s' ∧ Upgraded sessionDate s₂ s') τ₂ s₂ := by
        intro status hterminal
        have hmarked : ∀ t, Watch.Permits sessionDate ⟨s₂, starts⟩
            (.writeState (s₂.marked date runId status none none t)) ∧
              Upgraded sessionDate s₂ (s₂.marked date runId status none none t) :=
          fun t => marked_upgrades (not_not.mp hrun) hterminal t
        have hworks : False → ∀ c, P c → c.StateWorks := fun hw => hw.elim
        refine System.wp_mono _ (wp_mark hworks h₂ fun t => (hmarked t).1) ?_
        rintro out τ₃ s₃ ⟨h₃, ⟨_, t, rfl⟩ | ⟨rfl, _⟩⟩
        · exact ⟨h₃, (hmarked t).2⟩
        · exact ⟨h₃, .refl _⟩
      cases quality with
      | targetReached => exact hmark (by decide)
      | incomplete => exact hmark (by decide)
      | _ => exact ⟨h₂, .refl _⟩
    · rintro e τ₂ s₂ ⟨rfl, h₂, _⟩
      exact ⟨h₂, .refl _⟩
    · rintro τ₂ s₂ ⟨rfl, h₂, _⟩
      exact ⟨h₂, .refl _⟩
  · rintro e τ₁ s₁ ⟨rfl, h₁, _⟩
    exact ⟨h₁, .refl _⟩
  · rintro τ₁ s₁ ⟨rfl, h₁, _⟩
    exact ⟨h₁, .refl _⟩

/-- A part of a reconciliation: whatever it did before, it keeps the trace legal and the session
as counted and as closed as it was. -/
def Keeps (P : CommandOracle → Prop) (sessionDate : String) (w : Watch) (starts : Nat)
    (before : SessionState) (p : C α) : Prop :=
  ∀ τ payload, Kept sessionDate w starts τ payload → Upgraded sessionDate before payload →
    (commandWorld.restrict P).wp p (fun _ τ' s' => Kept sessionDate w starts τ' s' ∧
      Upgraded sessionDate before s') τ payload

section Parts

variable {before : SessionState} {β : Type}

theorem keeps_neutral (hP : ∀ c, P c → c.InSession sessionDate) {p : C α}
    (hp : p.Uses (S := commandSig) CommandOp.Neutral) :
    Keeps P sessionDate w starts before p := by
  intro τ payload h hupgraded
  refine System.wp_mono _ (wp_query hP (.of_uses hp) h) ?_
  rintro out τ' s' ⟨rfl, h', _⟩
  exact ⟨h', hupgraded⟩

theorem keeps_bind {p : C α} {f : α → C β} (hp : Keeps P sessionDate w starts before p)
    (hf : ∀ a, Keeps P sessionDate w starts before (f a)) :
    Keeps P sessionDate w starts before (p.bind f) := by
  intro τ payload h hupgraded
  refine System.wp_seq _ (hp τ payload h hupgraded) ?_ (fun _ _ _ h => h) fun _ _ h => h
  rintro a τ₁ s₁ ⟨h₁, hupgraded₁⟩
  exact hf a τ₁ s₁ h₁ hupgraded₁

theorem keeps_forEach {f : α → C Unit} (hf : ∀ a, Keeps P sessionDate w starts before (f a))
    (as : List α) : Keeps P sessionDate w starts before (Prog.forEach f as) := by
  induction as with
  | nil => exact fun _ _ h hupgraded => ⟨h, hupgraded⟩
  | cons a as ih => exact keeps_bind (hf a) fun _ => ih

theorem ask_neutral {o : CommandOp} (h : o.Neutral) :
    (askOutside o).Uses (S := commandSig) CommandOp.Neutral :=
  Prog.uses_perform (S := commandSig) h

theorem keeps_assessRun (hP : ∀ c, P c → c.InSession sessionDate) (runId : String) :
    Keeps P sessionDate w starts before (assessRun runId) := by
  unfold assessRun
  refine keeps_bind (keeps_neutral hP (ask_neutral trivial)) fun (plan : SavedPlanHead) => ?_
  split
  · exact keeps_neutral hP (p := .ret ()) trivial
  refine keeps_bind (keeps_neutral hP (ask_neutral trivial)) fun (quality : QualityStatus) => ?_
  refine keeps_bind (keeps_neutral hP (ask_neutral trivial)) fun previous => ?_
  refine keeps_bind (keeps_neutral hP (ask_neutral trivial)) fun _ => ?_
  refine keeps_bind (fun τ payload h hupgraded => ?_) fun _ => keeps_neutral hP ?_
  · refine System.wp_mono _ (wp_upgradeSession hP h runId plan.sessionDate quality) ?_
    exact fun _ τ' s' h => ⟨h.1, hupgraded.trans h.2⟩
  · split
    · exact sendAlert_neutral _
    · trivial

theorem keeps_reconcileOrders (hP : ∀ c, P c → c.InSession sessionDate)
    (tradingMode : TradingMode) (verifyRecovery : Bool) :
    Keeps P sessionDate w starts before (reconcileOrders tradingMode verifyRecovery) := by
  unfold reconcileOrders
  split
  · refine keeps_neutral hP ?_
    split <;> trivial
  refine keeps_bind (keeps_neutral hP (ask_neutral trivial)) fun (summary : ReconcileSummary) => ?_
  refine keeps_bind (keeps_forEach (fun update => keeps_neutral hP ?_) _) fun _ => ?_
  · split
    · exact sendAlert_neutral _
    · trivial
  refine keeps_bind (keeps_neutral hP (Prog.uses_bind (ask_neutral trivial) fun _ => trivial))
    fun pending => ?_
  refine keeps_bind (keeps_neutral hP (Prog.uses_collect fun runId _ =>
    Prog.uses_bind (ask_neutral trivial) fun _ => trivial)) fun runs => ?_
  refine keeps_bind ?_ fun _ => ?_
  · split
    · exact keeps_neutral hP (p := .ret ()) trivial
    · refine keeps_bind (keeps_neutral hP (Prog.uses_attempt (ask_neutral trivial))) fun _ => ?_
      refine keeps_bind (keeps_neutral hP (ask_neutral trivial)) fun _ => ?_
      exact keeps_forEach (fun runId => keeps_assessRun hP runId) _
  refine keeps_neutral hP (Prog.uses_bind (ask_neutral trivial) fun (store : OrderStore) => ?_)
  split
  · trivial
  cases verifyRecovery with
  | true => exact ask_neutral trivial
  | false => trivial

end Parts

end Rules

/-- The processes see no other session in the calendar. -/
def OneSession (sessionDate : String) (steps : List HostStep) : Prop :=
  ∀ step ∈ steps, ∀ c ∈ step.choices, c.InSession sessionDate

/-- Whatever a process does, it does legally, from any state file and any number of starts that
the file covers. -/
theorem HostStep.run_kept (step : HostStep) {sessionDate : String}
    (hP : ∀ c ∈ step.choices, c.InSession sessionDate) {payload : SessionState} {starts : Nat}
    (hsound : Watch.Sound sessionDate ⟨payload, starts⟩) :
    ∃ starts', Kept sessionDate ⟨payload, starts⟩ starts' (step.run payload).trace
      (step.after payload) := by
  have hstart : Kept sessionDate ⟨payload, starts⟩ starts [] payload := ⟨trivial, rfl⟩
  refine System.wp_restrict_run commandWorld (P := fun c => c.InSession sessionDate)
    (p := step.command.program) (Q := fun _ τ s' => ∃ starts',
      Kept sessionDate ⟨payload, starts⟩ starts' τ s') ?_ hP
  cases step.command with
  | monitor forceDryRun =>
    have hworks : False → ∀ c : CommandOracle, c.InSession sessionDate → c.StateWorks :=
      fun hw => hw.elim
    exact System.wp_mono _ (wp_monitor (fun _ h => h) hworks hstart hsound forceDryRun)
      fun _ _ _ h => h.1
  | reconcileOrders tradingMode verifyRecovery =>
    exact System.wp_mono _ (keeps_reconcileOrders (fun _ h => h) tradingMode verifyRecovery []
      payload hstart (.refl payload)) fun _ _ _ h => ⟨starts, h.1⟩

/-- Over any processes of one session, everything is done legally. -/
theorem HostStep.traces_legal {sessionDate : String} (steps : List HostStep) :
    ∀ {payload : SessionState} {starts : Nat}, OneSession sessionDate steps →
      Watch.Sound sessionDate ⟨payload, starts⟩ →
      Watch.Legal sessionDate ⟨payload, starts⟩ (HostStep.traces payload steps) := by
  induction steps with
  | nil => exact fun _ _ => trivial
  | cons step steps ih =>
    intro payload starts hsteps hsound
    obtain ⟨starts', hlegal, hover⟩ := step.run_kept (hsteps step List.mem_cons_self) hsound
    have hsound' := hlegal.afterAll.2.2 hsound
    rw [HostStep.traces, Watch.legal_append, hover]
    rw [hover] at hsound'
    exact ⟨hlegal, ih (fun step hmem => hsteps step (List.mem_cons_of_mem _ hmem)) hsound'⟩

/-- The runs a trace started a rebalance for, in order. -/
def startedRuns (τ : List (Event commandSig)) : List String :=
  τ.filterMap fun event => match event.op with
    | .startRebalance _ runId _ => some runId
    | _ => none

/-- The state file at the end of a trace. -/
def stateAfter (payload : SessionState) (τ : List (Event commandSig)) : SessionState :=
  (Watch.afterAll ⟨payload, 0⟩ τ).file

/-- Between processes, it is the file the last one left. -/
theorem stateAfter_traces {sessionDate : String} (steps : List HostStep) :
    ∀ payload : SessionState, OneSession sessionDate steps →
      stateAfter payload (HostStep.traces payload steps) =
        steps.foldl (fun s step => step.after s) payload := by
  have hwatched : ∀ payload starts, Watch.Sound sessionDate ⟨payload, starts⟩ →
      OneSession sessionDate steps →
        (Watch.afterAll ⟨payload, starts⟩ (HostStep.traces payload steps)).file =
          steps.foldl (fun s step => step.after s) payload := by
    induction steps with
    | nil => exact fun _ _ _ _ => rfl
    | cons step steps ih =>
      intro payload starts hsound hsteps
      obtain ⟨starts', hlegal, hover⟩ := step.run_kept (hsteps step List.mem_cons_self) hsound
      have hsound' := hlegal.afterAll.2.2 hsound
      rw [hover] at hsound'
      rw [HostStep.traces, Watch.afterAll_append, hover]
      exact ih _ starts' hsound' fun step hmem => hsteps step (List.mem_cons_of_mem _ hmem)
  exact fun payload hsteps => hwatched payload 0 (Or.inl rfl) hsteps

theorem mem_startedRuns {τ : List (Event commandSig)} {runId : String} :
    runId ∈ startedRuns τ ↔ ∃ event ∈ τ, ∃ date force,
      event.op = .startRebalance date runId force := by
  unfold startedRuns
  rw [List.mem_filterMap]
  refine exists_congr fun event => and_congr_right fun _ => ?_
  generalize event.op = o
  cases o with
  | startRebalance date other force =>
    constructor
    · intro h
      obtain rfl := Option.some.inj h
      exact ⟨date, force, rfl⟩
    · rintro ⟨_, _, h⟩
      cases h
      rfl
  | _ => simp

/-- In a legal trace every start is for the run of the first one. -/
theorem Watch.Legal.startedRuns_eq {sessionDate : String} {w : Watch}
    {τ : List (Event commandSig)} (h : Legal sessionDate w τ) :
    ∀ runId ∈ startedRuns τ, (startedRuns τ).head? = some runId := by
  induction τ generalizing w with
  | nil => simp [startedRuns]
  | cons event τ ih =>
    obtain ⟨hpermits, hrest⟩ := h
    have hskip : (∀ date runId force, event.op ≠ .startRebalance date runId force) →
        startedRuns (event :: τ) = startedRuns τ := by
      intro hnot
      unfold startedRuns
      rw [List.filterMap_cons]
      generalize hop : event.op = o at hnot
      cases o with
      | startRebalance date runId force => exact absurd rfl (hnot date runId force)
      | _ => rfl
    by_cases hstart : ∃ date runId force, event.op = .startRebalance date runId force
    · obtain ⟨date, runId, force, hop⟩ := hstart
      have hcons : startedRuns (event :: τ) = runId :: startedRuns τ := by
        unfold startedRuns
        rw [List.filterMap_cons, hop]
      have hbound : w.file.Bound sessionDate runId := by
        rw [hop] at hpermits
        exact hpermits.2.1
      have hkept := (after_of_permits hpermits).1 runId hbound
      rw [hcons]
      intro other hother
      rcases List.mem_cons.mp hother with rfl | hmem
      · rfl
      · obtain ⟨later, hlater, date', force', hop'⟩ := mem_startedRuns.mp hmem
        exact congrArg some (hrest.starts_bound hkept hlater hop').symm
    · rw [hskip fun date runId force hop => hstart ⟨date, runId, force, hop⟩]
      exact ih hrest

/-- Over any processes of one session, from any state file: all attempts are of one run, and from
the moment the session is closed no attempt is started and it stays closed. -/
theorem one_session_one_run (sessionDate : String) (payload : SessionState) (steps : List HostStep)
    (hsteps : OneSession sessionDate steps) :
    (∀ runId ∈ startedRuns (HostStep.traces payload steps),
      (startedRuns (HostStep.traces payload steps)).head? = some runId) ∧
    ∀ τ₁ τ₂ τ₃, HostStep.traces payload steps = τ₁ ++ τ₂ ++ τ₃ →
      (stateAfter payload τ₁).Closed sessionDate →
        startedRuns τ₂ = [] ∧ (stateAfter payload (τ₁ ++ τ₂)).Closed sessionDate := by
  have hsound : Watch.Sound sessionDate ⟨payload, 0⟩ := Or.inl rfl
  have hlegal := HostStep.traces_legal steps hsteps hsound
  refine ⟨hlegal.startedRuns_eq, fun τ₁ τ₂ τ₃ hsplit hclosed => ?_⟩
  rw [hsplit, Watch.legal_append, Watch.legal_append] at hlegal
  obtain ⟨⟨hfirst, hsecond⟩, _⟩ := hlegal
  constructor
  · rw [List.eq_nil_iff_forall_not_mem]
    intro runId hmem
    obtain ⟨event, hevent, date, force, hop⟩ := mem_startedRuns.mp hmem
    exact hsecond.no_start hclosed hevent date runId force hop
  · unfold stateAfter
    rw [Watch.afterAll_append]
    exact hsecond.afterAll.2.1 hclosed

theorem ordersPending_graded : ExecutionStatus.ordersPending.value ∈ outcomeStatuses := by decide

/-- A host on which everything works, and every rebalance leaves its orders pending. -/
def workingHost (sessionDate : String) : CommandOracle where
  clock := "20260105T150000Z"
  answer
    | .readState => .ok .absent
    | .shouldRebalanceNow => .ok ⟨true, some sessionDate, "rebalance day"⟩
    | .rebalanceOutcome =>
      let plan : RebalancePlan :=
        { runId := "rebalance-20260105T150000Z", sessionDate, trades := [] }
      .ok (⟨⟨plan, true, false, ExecutionStatus.ordersPending.value⟩, ordersPending_graded⟩,
        "report.md")
    | .planExists _ => .ok false
    | .accountSnapshot => .error (.brokerUnavailable "no account")
    | .loadLatestEntries => .ok OrderStore.empty
    | .readPlan _ => .error (.other "no plan")
    | .assessSavedRun _ => .ok .unknown
    | .savedQuality _ => .ok none
    | .reconcile => .ok ⟨0, []⟩
    | .utcRunId => .ok "20260105T150000Z"
    | .utcNow => .ok "20260105T150000Z"
    | .writeState _ => .ok ()
    | .startRebalance _ _ _ => .ok ()
    | .sendAlert _ => .ok ()
    | .recordQuality _ _ => .ok ()
    | .verifyBrokerRecovery => .ok ()

/-- A tick that is killed after so many operations, if it gets that far. -/
def tick (sessionDate : String) (operations : Nat) : HostStep :=
  ⟨.monitor false, List.replicate operations (workingHost sessionDate)⟩

theorem tick_inSession (sessionDate : String) (operations : Nat) :
    ∀ c ∈ (tick sessionDate operations).choices, c.InSession sessionDate := by
  intro c hc
  obtain rfl := List.eq_of_mem_replicate hc
  intro decision hdecision
  obtain rfl := Except.ok.inj hdecision
  exact Or.inr rfl

/-- A tick killed in its rebalance, one that ends it, and one that finds it done. -/
theorem one_session_one_run_resumed :
    startedRuns (HostStep.traces .absent [tick "2026-01-05" 8, tick "2026-01-05" 40,
      tick "2026-01-05" 40]) = ["rebalance-20260105T150000Z", "rebalance-20260105T150000Z"] ∧
    ∀ runId ∈ startedRuns (HostStep.traces .absent [tick "2026-01-05" 8, tick "2026-01-05" 40,
      tick "2026-01-05" 40]), (startedRuns (HostStep.traces .absent [tick "2026-01-05" 8,
        tick "2026-01-05" 40, tick "2026-01-05" 40])).head? = some runId := by
  refine ⟨by decide +kernel, (one_session_one_run "2026-01-05" .absent _ ?_).1⟩
  simp only [OneSession, List.forall_mem_cons]
  exact ⟨tick_inSession _ 8, tick_inSession _ 40, tick_inSession _ 40, by simp⟩

end Poma

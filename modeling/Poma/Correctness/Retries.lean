import Poma.Correctness.Sessions

/-!
# How often a session is attempted

The attempt counter is durable, and it counts every attempt before the rebalance
is started, also one that resumes a killed attempt. The budget is only compared
with it when an attempt ends: a tick that is killed after it has counted the last
attempt leaves the session running, and the next tick counts one more.
-/

namespace Poma

open Interaction

/-- A process that counts the last attempt of a session, or a later one, is not killed, and the
state file works for it. -/
def HostStep.MarksLast (sessionDate : String) (payload : SessionState) (step : HostStep) : Prop :=
  Counts sessionDate maxRebalanceRetryAttempts (step.run payload).trace →
    (step.run payload).outcome ≠ .stopped ∧ ∀ c ∈ step.choices, c.StateWorks

/-- So does every process of the sequence. -/
def HostStep.AllMarkLast (sessionDate : String) : SessionState → List HostStep → Prop
  | _, [] => True
  | payload, step :: steps =>
    step.MarksLast sessionDate payload ∧ AllMarkLast sessionDate (step.after payload) steps

/-- The budget of the session: it is closed before its last attempt is over. -/
structure WithinBudget (sessionDate : String) (payload : SessionState) : Prop where
  count : payload.attemptCount sessionDate ≤ maxRebalanceRetryAttempts
  spent : payload.attemptCount sessionDate = maxRebalanceRetryAttempts →
    payload.Closed sessionDate

variable {sessionDate : String} {payload payload' : SessionState}

/-- A session that no attempt was made of is within its budget. -/
theorem WithinBudget.fresh (h : payload.lastRebalanceSession ≠ some sessionDate) :
    WithinBudget sessionDate payload := by
  have hcount : payload.attemptCount sessionDate = 0 := by
    rw [SessionState.attemptCount, if_pos h]
  constructor
  · rw [hcount]
    exact Nat.zero_le _
  · intro hspent
    rw [hcount] at hspent
    cases hspent

/-- A reconciliation keeps the budget. -/
theorem WithinBudget.upgraded (h : WithinBudget sessionDate payload)
    (hup : Upgraded sessionDate payload payload') : WithinBudget sessionDate payload' := by
  constructor
  · rw [hup.count]
    exact h.count
  · intro hspent
    rw [hup.count] at hspent
    exact hup.closed (h.spent hspent)

/-- A tick keeps the budget when its last attempt ends with a mark. -/
theorem WithinBudget.ticked {works : Prop} {out : Outcome Exn Unit} {τ : List (Event commandSig)}
    (h : WithinBudget sessionDate payload)
    (htick : Ticked sessionDate works payload out τ payload')
    (hmarks : Counts sessionDate maxRebalanceRetryAttempts τ → works ∧ out ≠ .stopped) :
    WithinBudget sessionDate payload' := by
  rcases htick with rfl | ⟨runId, attempt, hopen, hin, hnext, hcounts, hended⟩
  · exact h
  have hbefore : payload.attemptCount sessionDate < maxRebalanceRetryAttempts := by
    apply lt_of_le_of_ne h.count
    intro hspent
    exact hopen (h.spent hspent)
  have hcount : payload'.attemptCount sessionDate = attempt := hin.counted.count_eq
  constructor
  · omega
  · intro hspent
    have hlast : attempt = maxRebalanceRetryAttempts := hcount.symm.trans hspent
    subst hlast
    obtain ⟨hworks, hout⟩ := hmarks hcounts
    rcases hended hworks hout with ⟨_, hlt⟩ | hterminal
    · exact absurd hlt (lt_irrefl _)
    · exact ⟨hin.counted.session, hterminal⟩

/-- One process keeps the budget. -/
theorem HostStep.run_withinBudget (step : HostStep)
    (hsession : ∀ c ∈ step.choices, c.InSession sessionDate)
    (hmarks : step.MarksLast sessionDate payload) {starts : Nat}
    (hsound : Watch.Sound sessionDate ⟨payload, starts⟩)
    (h : WithinBudget sessionDate payload) : WithinBudget sessionDate (step.after payload) := by
  have hstart : Kept sessionDate ⟨payload, starts⟩ starts [] payload := ⟨trivial, rfl⟩
  -- the choices of this process, all of them: they work if they are said to
  let P : CommandOracle → Prop := fun c => c ∈ step.choices
  have hP : ∀ c, P c → c.InSession sessionDate := hsession
  have hall : ∀ c ∈ step.choices, P c := fun c hc => hc
  cases hcommand : step.command with
  | monitor forceDryRun =>
    have hworks : (∀ c ∈ step.choices, c.StateWorks) → ∀ c, P c → c.StateWorks := fun hw => hw
    have htick := System.wp_restrict_run commandWorld
      (wp_monitor hP hworks hstart hsound forceDryRun) hall
    have hrun : step.run payload =
        commandWorld.run (monitor forceDryRun) step.choices payload := by
      rw [HostStep.run, hcommand]
      rfl
    rw [← hrun] at htick
    exact h.ticked htick.2 fun hcounts => (hmarks hcounts).symm
  | reconcileOrders tradingMode verifyRecovery =>
    have hkeeps := System.wp_restrict_run commandWorld
      (keeps_reconcileOrders hP tradingMode verifyRecovery [] payload hstart (.refl payload)) hall
    have hrun : step.run payload =
        commandWorld.run (reconcileOrders tradingMode verifyRecovery) step.choices payload := by
      rw [HostStep.run, hcommand]
      rfl
    rw [← hrun] at hkeeps
    exact h.upgraded hkeeps.2

/-- Over processes that end their last attempt, the budget is kept, and covers every start. -/
theorem HostStep.traces_withinBudget (steps : List HostStep) :
    ∀ {payload : SessionState} {starts : Nat}, OneSession sessionDate steps →
      HostStep.AllMarkLast sessionDate payload steps →
      Watch.Sound sessionDate ⟨payload, starts⟩ → WithinBudget sessionDate payload →
        (Watch.afterAll ⟨payload, starts⟩ (HostStep.traces payload steps)).Sound sessionDate ∧
        WithinBudget sessionDate
          (Watch.afterAll ⟨payload, starts⟩ (HostStep.traces payload steps)).file := by
  induction steps with
  | nil => exact fun _ _ hsound hbudget => ⟨hsound, hbudget⟩
  | cons step steps ih =>
    intro payload starts hsteps hmarks hsound hbudget
    have hsession := hsteps step List.mem_cons_self
    obtain ⟨starts', hlegal, hover⟩ := step.run_kept hsession hsound
    have hsound' := hlegal.afterAll.2.2 hsound
    rw [hover] at hsound'
    rw [HostStep.traces, Watch.afterAll_append, hover]
    exact ih (fun step hmem => hsteps step (List.mem_cons_of_mem _ hmem)) hmarks.2 hsound'
      (step.run_withinBudget hsession hmarks.1 hsound hbudget)

/-- The starts that are watched are those of the trace. -/
theorem Watch.afterAll_starts (w : Watch) (τ : List (Event commandSig)) :
    (w.afterAll τ).starts = w.starts + (startedRuns τ).length := by
  induction τ generalizing w with
  | nil => rfl
  | cons event τ ih =>
    have hstep : (w.afterAll (event :: τ)).starts = ((w.after event).afterAll τ).starts := rfl
    rw [hstep, ih]
    obtain ⟨o, r⟩ := event
    cases o with
    | startRebalance date runId force =>
      have hcons : startedRuns (⟨.startRebalance date runId force, r⟩ :: τ) =
        runId :: startedRuns τ := rfl
      rw [hcons, List.length_cons]
      show w.starts + 1 + _ = _
      omega
    | writeState next => cases r <;> rfl
    | _ => rfl

/-- Over any processes of a new session that end their last attempt, the rebalance is started no
more often than the retry budget allows. -/
theorem attempts_within_budget (sessionDate : String) (payload : SessionState)
    (steps : List HostStep) (hnew : payload.lastRebalanceSession ≠ some sessionDate)
    (hsteps : OneSession sessionDate steps)
    (hmarks : HostStep.AllMarkLast sessionDate payload steps) :
    (startedRuns (HostStep.traces payload steps)).length ≤ maxRebalanceRetryAttempts := by
  have hsound : Watch.Sound sessionDate ⟨payload, 0⟩ := Or.inl rfl
  obtain ⟨hcovered, hbudget⟩ :=
    HostStep.traces_withinBudget steps hsteps hmarks hsound (.fresh hnew)
  have hstarts := Watch.afterAll_starts ⟨payload, 0⟩ (HostStep.traces payload steps)
  have hstarts : (Watch.afterAll ⟨payload, 0⟩ (HostStep.traces payload steps)).starts =
      (startedRuns (HostStep.traces payload steps)).length := by
    rw [hstarts]
    exact Nat.zero_add _
  have hcount := hbudget.count
  rcases hcovered with hnone | ⟨runId, _, hle⟩ <;> omega

theorem tick_stateWorks {sessionDate : String} {operations : Nat} {c : CommandOracle}
    (hc : c ∈ (tick sessionDate operations).choices) : c.StateWorks := by
  obtain rfl := List.eq_of_mem_replicate hc
  exact ⟨⟨_, rfl⟩, fun _ => rfl⟩

/-- A session that is done in its first tick. -/
theorem attempts_within_budget_once :
    (startedRuns (HostStep.traces .absent [tick "2026-01-05" 40, tick "2026-01-05" 40])).length ≤
      maxRebalanceRetryAttempts := by
  have hmarks : ∀ payload, ((tick "2026-01-05" 40).run payload).outcome = .returned () →
      (tick "2026-01-05" 40).MarksLast "2026-01-05" payload := by
    intro payload hout _
    rw [hout]
    exact ⟨by simp, fun c hc => tick_stateWorks hc⟩
  refine attempts_within_budget "2026-01-05" .absent _ (by decide) ?_ ⟨?_, ?_, trivial⟩
  · simp only [OneSession, List.forall_mem_cons]
    exact ⟨tick_inSession _ 40, tick_inSession _ 40, by simp⟩
  · exact hmarks _ rfl
  · exact hmarks _ rfl

/-- Thirteen ticks, each killed in its rebalance: all thirteen are started. -/
theorem killed_attempts_unbounded :
    OneSession "2026-01-05" (List.replicate 13 (tick "2026-01-05" 9)) ∧
    SessionState.absent.lastRebalanceSession ≠ some "2026-01-05" ∧
    maxRebalanceRetryAttempts <
      (startedRuns (HostStep.traces .absent (List.replicate 13 (tick "2026-01-05" 9)))).length := by
  refine ⟨fun step hmem => ?_, by decide, by decide +kernel⟩
  obtain rfl := List.eq_of_mem_replicate hmem
  exact tick_inSession _ 9

end Poma

import Mathlib.Tactic.NormNum
import Poma.Core.RateLimits
import Poma.Host.Watchdog

/-!
# Gateway restarts are rate limited

The watchdog keeps the stamps of its recent restarts and a count of failures in a
row. Over a whole run the stamps are the recent part of all restarts so far, and
the count is the length of the last stretch of failures: no window has more
restarts than its budget, neighbours are a cooldown apart, and every restart ends
a stretch of failures as long as the threshold.
-/

namespace Poma

namespace Watchdog

open RateLimits

/-- What an observation leaves of the state, case by case. -/
inductive Observed (state : State) (seen : Observation) : State × Bool → Prop
  | probeFailed (h : seen.status = .probeError) :
    Observed state seen ({ state with failures := 0 }, false)
  | answered (after : State) (h : seen.status ≠ .unavailable) (hfailures : after.failures = 0)
    (hrestarts : after.restarts = recent restartWindowSeconds seen.now state.restarts) :
    Observed state seen (after, false)
  | failed (after : State) (h : seen.status = .unavailable)
    (hfailures : after.failures = state.failures + 1)
    (hrestarts : after.restarts = recent restartWindowSeconds seen.now state.restarts) :
    Observed state seen (after, false)
  | restarted (after : State) (h : seen.status = .unavailable) (hfailures : after.failures = 0)
    (hthreshold : failureThreshold ≤ state.failures + 1)
    (hbudget : (recent restartWindowSeconds seen.now state.restarts).length < maxRestartsPerWindow)
    (hcooldown : ∀ stamp, (recent restartWindowSeconds seen.now state.restarts).getLast? =
      some stamp → restartCooldownSeconds ≤ seen.now - stamp)
    (hrestarts : after.restarts =
      recent restartWindowSeconds seen.now state.restarts ++ [seen.now]) :
    Observed state seen (after, true)

/-- The policy after the threshold: it waits, or it restarts within the limits. -/
theorem decideFailing_cases (state : State) (now : ℚ) :
    ((decideFailing state now).restart = false ∧
      (decideFailing state now).state.failures = state.failures ∧
      (decideFailing state now).state.restarts = state.restarts) ∨
    ((decideFailing state now).restart = true ∧
      (decideFailing state now).state.failures = 0 ∧
      (decideFailing state now).state.restarts = state.restarts ++ [now] ∧
      state.restarts.length < maxRestartsPerWindow ∧
      ∀ stamp, state.restarts.getLast? = some stamp → restartCooldownSeconds ≤ now - stamp) := by
  unfold decideFailing
  dsimp only
  split
  · left
    split <;> exact ⟨rfl, rfl, rfl⟩
  · rename_i hlimits
    obtain ⟨hcool, hbudget⟩ := not_or.mp hlimits
    refine Or.inr ⟨rfl, rfl, rfl, not_le.mp hbudget, ?_⟩
    intro stamp hstamp
    rw [hstamp] at hcool
    simpa using hcool

theorem observe_observed (state : State) (seen : Observation) :
    Observed state seen (observe state seen) := by
  obtain ⟨status, now⟩ := seen
  cases status with
  | probeError => exact .probeFailed rfl
  | authenticated => exact .answered _ nofun rfl rfl
  | disabled => exact .answered _ nofun rfl rfl
  | configurationError =>
    unfold observe decideRestart
    dsimp only
    split
    · exact .answered _ nofun rfl rfl
    · exact .answered _ nofun rfl rfl
  | unavailable =>
    unfold observe decideRestart
    dsimp only
    split
    · exact .failed _ rfl rfl rfl
    · rename_i hthreshold
      generalize hcounted : State.mk (state.failures + 1) true state.lastAlert
        (state.restarts.filter fun stamp => now - stamp < restartWindowSeconds) = counted
      have hcases := decideFailing_cases counted now
      generalize decideFailing counted now = decision at hcases
      obtain ⟨after, restart, notice⟩ := decision
      subst hcounted
      rcases hcases with ⟨hno, hfailures, hrestarts⟩ | ⟨hyes, hfailures, hrestarts, hbudget, hlast⟩
      · obtain rfl : restart = false := hno
        exact .failed after rfl hfailures hrestarts
      · obtain rfl : restart = true := hyes
        exact .restarted after rfl hfailures (not_lt.mp hthreshold) hbudget hlast hrestarts

/-- A turn on a failure that is not the last of its stretch. -/
def Turn.Failed (turn : Turn) : Prop := turn.seen.status = .unavailable ∧ turn.restarted = false

/-- The turns before a restart end in enough failures in a row. -/
def Earned (before : List Turn) : Prop :=
  ∃ earlier stretch, before = earlier ++ stretch ∧ stretch.length + 1 = failureThreshold ∧
    ∀ turn ∈ stretch, turn.Failed

/-- What holds of the restarts of a run. -/
structure RateLimited (run : List Turn) : Prop where
  budget : WithinBudget restartWindowSeconds maxRestartsPerWindow (restartTimes run)
  cooldown : Spaced restartCooldownSeconds (restartTimes run)
  earned : ∀ before turn after, run = before ++ turn :: after → turn.restarted = true →
    turn.seen.status = .unavailable ∧ Earned before

/-- What a state knows of the run it comes from, whose last turn is not after a time. -/
structure Tracks (run : List Turn) (time : ℚ) (state : State) : Prop where
  limited : RateLimited run
  past : ∀ stamp ∈ restartTimes run, stamp ≤ time
  stamps : ∃ pruned ≤ time, state.restarts = recent restartWindowSeconds pruned (restartTimes run)
  failures : ∃ earlier stretch, run = earlier ++ stretch ∧ stretch.length = state.failures ∧
    ∀ turn ∈ stretch, turn.Failed

theorem restartTimes_append (run : List Turn) (turn : Turn) : restartTimes (run ++ [turn]) =
    restartTimes run ++ if turn.restarted then [turn.seen.now] else [] := by
  unfold restartTimes
  cases hrestarted : turn.restarted <;> simp [hrestarted]

/-- A run without restarts or failures is tracked by the first state. -/
theorem tracks_initial (time : ℚ) : Tracks [] time {} where
  limited := {
    budget := fun _ => Nat.zero_le _
    cooldown := List.isChain_nil
    earned := fun before turn after hrun => by
      have hlength := congrArg List.length hrun
      simp at hlength }
  past := nofun
  stamps := ⟨time, le_rfl, rfl⟩
  failures := ⟨[], [], rfl, rfl, nofun⟩

/-- A run of one more turn: its earlier restarts are as before, the last one is checked. -/
theorem earned_append {run : List Turn} (h : RateLimited run) (last : Turn)
    (hlast : last.restarted = true → last.seen.status = .unavailable ∧ Earned run)
    {before : List Turn} {turn : Turn} {after : List Turn}
    (hrun : run ++ [last] = before ++ turn :: after) (hrestarted : turn.restarted = true) :
    turn.seen.status = .unavailable ∧ Earned before := by
  rcases List.eq_nil_or_concat after with rfl | ⟨shorter, final, rfl⟩
  · obtain ⟨rfl, hturn⟩ := List.append_inj' hrun rfl
    obtain rfl := (List.cons.inj hturn).1
    exact hlast hrestarted
  · have hinit : run ++ [last] = (before ++ turn :: shorter) ++ [final] := by
      simpa using hrun
    exact h.earned before turn shorter (List.append_inj' hinit rfl).1 hrestarted

/-- A turn without a restart leaves the limits as they are. -/
theorem RateLimited.append_kept {run : List Turn} (h : RateLimited run) (seen : Observation) :
    RateLimited (run ++ [⟨seen, false⟩]) := by
  have htimes : restartTimes (run ++ [⟨seen, false⟩]) = restartTimes run := by
    simp [restartTimes_append]
  constructor
  · rw [htimes]
    exact h.budget
  · rw [htimes]
    exact h.cooldown
  · intro before turn after hrun hrestarted
    exact earned_append h ⟨seen, false⟩ (fun hno => by cases hno) hrun hrestarted

/-- A restart the policy allows keeps the limits. -/
theorem RateLimited.append_restart {run : List Turn} (h : RateLimited run) {seen : Observation}
    (hstatus : seen.status = .unavailable) (hearned : Earned run)
    (hbudget : (recent restartWindowSeconds seen.now (restartTimes run)).length <
      maxRestartsPerWindow)
    (hcooldown : ∀ stamp, (restartTimes run).getLast? = some stamp →
      restartCooldownSeconds ≤ seen.now - stamp) :
    RateLimited (run ++ [⟨seen, true⟩]) := by
  have htimes : restartTimes (run ++ [⟨seen, true⟩]) = restartTimes run ++ [seen.now] := by
    simp [restartTimes_append]
  constructor
  · rw [htimes]
    exact h.budget.append hbudget
  · rw [htimes]
    exact h.cooldown.append hcooldown
  · intro before turn after hrun hrestarted
    exact earned_append h ⟨seen, true⟩ (fun _ => ⟨hstatus, hearned⟩) hrun hrestarted

/-- The last restart of a run is a cooldown ago where the last recent one is. -/
theorem cooldown_of_recent {times : List ℚ} {now : ℚ}
    (h : ∀ stamp, (recent restartWindowSeconds now times).getLast? = some stamp →
      restartCooldownSeconds ≤ now - stamp) {stamp : ℚ} (hstamp : times.getLast? = some stamp) :
    restartCooldownSeconds ≤ now - stamp := by
  rcases getLast?_recent restartWindowSeconds now hstamp with hrecent | hold
  · exact h stamp hrecent
  · have hwider : restartCooldownSeconds ≤ restartWindowSeconds := by
      unfold restartCooldownSeconds restartWindowSeconds
      norm_num
    exact hwider.trans hold

/-- One turn keeps track of the run. -/
theorem Tracks.turn {run : List Turn} {time : ℚ} {state : State} (h : Tracks run time state)
    {seen : Observation} (hlate : time ≤ seen.now) :
    Tracks (run ++ [⟨seen, (observe state seen).2⟩]) seen.now (observe state seen).1 := by
  have hobserved := observe_observed state seen
  obtain ⟨pruned, hpruned, hstamps⟩ := h.stamps
  obtain ⟨earlier, stretch, hsplit, hlength, hstretch⟩ := h.failures
  have hrecent : recent restartWindowSeconds seen.now state.restarts =
      recent restartWindowSeconds seen.now (restartTimes run) := by
    rw [hstamps, recent_recent (hpruned.trans hlate)]
  have hpast : ∀ stamp ∈ restartTimes run, stamp ≤ seen.now :=
    fun stamp hstamp => (h.past stamp hstamp).trans hlate
  have hkept : restartTimes (run ++ [⟨seen, false⟩]) = restartTimes run := by
    simp [restartTimes_append]
  generalize observe state seen = observed at hobserved
  cases hobserved with
  | probeFailed hstatus =>
    constructor
    · exact h.limited.append_kept seen
    · rw [hkept]
      exact hpast
    · rw [hkept]
      exact ⟨pruned, hpruned.trans hlate, hstamps⟩
    · exact ⟨run ++ [⟨seen, false⟩], [], by simp, rfl, nofun⟩
  | answered after hstatus hfailures hrestarts =>
    constructor
    · exact h.limited.append_kept seen
    · rw [hkept]
      exact hpast
    · rw [hkept]
      exact ⟨seen.now, le_rfl, hrestarts.trans hrecent⟩
    · exact ⟨run ++ [⟨seen, false⟩], [], by simp, hfailures.symm, nofun⟩
  | failed after hstatus hfailures hrestarts =>
    constructor
    · exact h.limited.append_kept seen
    · rw [hkept]
      exact hpast
    · rw [hkept]
      exact ⟨seen.now, le_rfl, hrestarts.trans hrecent⟩
    · -- the stretch of failures grows by this turn
      refine ⟨earlier, stretch ++ [⟨seen, false⟩], by simp [hsplit], by simp [hlength, hfailures],
        fun turn hturn => ?_⟩
      rcases List.mem_append.mp hturn with hturn | hturn
      · exact hstretch turn hturn
      · obtain rfl := List.mem_singleton.mp hturn
        exact ⟨hstatus, rfl⟩
  | restarted after hstatus hfailures hthreshold hbudget hcooldown hrestarts =>
    rw [hrecent] at hbudget hcooldown hrestarts
    have htimes : restartTimes (run ++ [⟨seen, true⟩]) = restartTimes run ++ [seen.now] := by
      simp [restartTimes_append]
    have hearned : Earned run := by
      -- only the last failures of a longer stretch are asked for
      refine ⟨earlier ++ stretch.take (stretch.length - (failureThreshold - 1)),
        stretch.drop (stretch.length - (failureThreshold - 1)), ?_, ?_,
        fun turn hturn => hstretch turn (List.mem_of_mem_drop hturn)⟩
      · rw [List.append_assoc, List.take_append_drop, hsplit]
      · rw [List.length_drop]
        unfold failureThreshold at hthreshold ⊢
        omega
    constructor
    · exact h.limited.append_restart hstatus hearned hbudget fun stamp =>
        cooldown_of_recent hcooldown
    · rw [htimes]
      intro stamp hstamp
      rcases List.mem_append.mp hstamp with hstamp | hstamp
      · exact hpast stamp hstamp
      · exact (List.mem_singleton.mp hstamp).le
    · refine ⟨seen.now, le_rfl, ?_⟩
      have hnow : recent restartWindowSeconds seen.now [seen.now] = [seen.now] := by
        simp [recent, restartWindowSeconds]
      rw [htimes, hrestarts, recent, recent, List.filter_append]
      exact congrArg _ hnow.symm
    · exact ⟨run ++ [⟨seen, true⟩], [], by simp, hfailures.symm, nofun⟩

/-- A run from a tracked state stays within the limits. -/
theorem Tracks.turns {observations : List Observation} {run : List Turn} {time : ℚ}
    {state : State} (h : Tracks run time state)
    (hordered : (time :: observations.map (·.now)).IsChain (· ≤ ·)) :
    RateLimited (run ++ turns state observations) := by
  induction observations generalizing run time state with
  | nil => simpa [Watchdog.turns] using h.limited
  | cons seen rest ih =>
    rw [List.map_cons, List.isChain_cons_cons] at hordered
    have hrest := ih (h.turn hordered.1) hordered.2
    rw [List.append_assoc] at hrest
    exact hrest

/-- The restarts of every run are rate limited. -/
theorem restarts_rateLimited (observations : List Observation)
    (hordered : (observations.map (·.now)).Pairwise (· ≤ ·)) :
    RateLimited (turns {} observations) := by
  cases observations with
  | nil => exact (tracks_initial 0).limited
  | cons seen rest =>
    have hchain : (seen.now :: (seen :: rest).map (·.now)).IsChain (· ≤ ·) := by
      rw [List.map_cons, List.isChain_cons_cons]
      exact ⟨le_rfl, List.isChain_iff_pairwise.mpr hordered⟩
    exact (tracks_initial seen.now).turns hchain

/-- Seven failures at three times: two restarts, a cooldown apart. -/
def failingRun : List Observation :=
  [⟨.unavailable, 10000⟩, ⟨.unavailable, 10000⟩, ⟨.unavailable, 10000⟩, ⟨.unavailable, 10360⟩,
    ⟨.unavailable, 10360⟩, ⟨.unavailable, 10360⟩, ⟨.unavailable, 10900⟩]

theorem restarts_rateLimited_failingRun :
    restartTimes (turns {} failingRun) = [10000, 10900] ∧ RateLimited (turns {} failingRun) :=
  ⟨by decide +kernel, restarts_rateLimited failingRun (by decide +kernel)⟩

/-- A tick saves what it makes of its observation before anything else, and restarts the gateway
exactly where the observation says so. -/
theorem tickLocked_saves_first {state : State} {seen : Observation} {restarted : Bool}
    {result : TickResult} (h : tickLocked (.ok state) seen.status seen.now restarted = .ok result) :
    ∃ rest, result.effects = .save (observe state seen).1 :: rest ∧
      (.restartGateway ∈ rest ↔ (observe state seen).2 = true) := by
  obtain ⟨status, now⟩ := seen
  have hdecided : ∀ decision : Decision, ∀ notice : Option Notice,
      (.restartGateway ∈ (if decision.restart then [Effect.restartGateway] else []) ++
        (notice.map Effect.notify).toList ↔ decision.restart = true) := by
    intro decision notice
    cases decision.restart <;> cases notice <;> simp
  cases status with
  | probeError =>
    obtain rfl := Except.ok.inj h
    exact ⟨[], rfl, by simp [observe]⟩
  | unavailable =>
    obtain rfl := Except.ok.inj h
    exact ⟨_, rfl, hdecided _ _⟩
  | authenticated =>
    obtain rfl := Except.ok.inj h
    exact ⟨_, rfl, hdecided _ _⟩
  | disabled =>
    obtain rfl := Except.ok.inj h
    exact ⟨_, rfl, hdecided _ _⟩
  | configurationError =>
    obtain rfl := Except.ok.inj h
    exact ⟨_, rfl, hdecided _ _⟩

/-- A failure is counted only when the probe itself says so, under its own exit code and for the
state directory that is locked: a broken application is never one. -/
theorem unavailable_of_authenticationStatus {returncode : Int} {payload : Option ProbePayload}
    {mounted : FileId} {expected : Option FileId}
    (h : authenticationStatus returncode payload mounted expected = .unavailable) :
    returncode = 10 ∧ (∀ locked, expected = some locked → mounted = locked) ∧
      payload = some ⟨"unavailable", some mounted.inode, some mounted.device⟩ := by
  unfold authenticationStatus at h
  split at h
  · cases h
  rename_i printed status code hread
  split at h
  · cases h
  rename_i hcode
  split at h
  · rename_i hstatus
    rw [hstatus] at h
    cases h
  split at h
  · cases h
  rename_i hexpected
  split at h
  · cases h
  rename_i hmounted
  subst h
  obtain ⟨printed', hpayload, hread⟩ := Option.bind_eq_some_iff.mp hread
  obtain ⟨⟨status, code'⟩, hprinted, hpair⟩ := Option.map_eq_some_iff.mp hread
  obtain ⟨rfl, rfl, rfl⟩ : printed' = printed ∧ status = .unavailable ∧ code' = code := by
    simpa using hpair
  have hten : printed'.status = "unavailable" ∧ code' = 10 := by
    unfold expectedCode at hprinted
    split at hprinted <;> simp_all only [Option.some.injEq, Prod.mk.injEq, reduceCtorEq, false_and,
      true_and, and_true]
  refine ⟨(not_not.mp hcode).trans hten.2, fun locked hlocked => ?_, ?_⟩
  · rw [hlocked] at hexpected
    simpa using hexpected
  · obtain ⟨text, inode, device⟩ := printed'
    obtain ⟨rfl, rfl⟩ := Prod.mk.inj (not_not.mp hmounted)
    obtain rfl : text = "unavailable" := hten.1
    exact hpayload

end Watchdog

end Poma

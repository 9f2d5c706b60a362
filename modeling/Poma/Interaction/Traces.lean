import Poma.Interaction.Execution

/-!
# Specifications by a program's own trace

What a run performs and how it ends, whatever the state it starts in: the
events are those of the run itself, so a sequence is specified by what its parts
perform, one after the other.
-/

namespace Interaction

/-- A condition on how a run ended and on what it performed. -/
abbrev TracePost (S : Signature) (α : Type) : Type := Outcome S.Exn α → List (Event S) → Prop

namespace System

variable {S : Signature} {σ α β : Type} (M : System S σ)

/-- Every run of a program, from every state, performs and ends as stated. -/
structure Emits (p : Prog S α) (P : TracePost S α) : Prop where
  runs : ∀ cs s, P (M.run p cs s).outcome (M.run p cs s).trace

variable {M}

/-- What the runs under allowed choices perform, and end as. -/
theorem Emits.restrict_run {C : M.Choice → Prop} {p : Prog S α} {P : TracePost S α}
    (h : (M.restrict C).Emits p P) {cs : List M.Choice} (hcs : ∀ c ∈ cs, C c) (s : σ) :
    P (M.run p cs s).outcome (M.run p cs s).trace := by
  apply M.wp_restrict_run (Q := fun out τ _ => P out τ) _ hcs
  rw [System.wp_iff_run]
  exact fun cs => h.runs cs s

theorem emits_ret {a : α} {P : TracePost S α} (h : P (.returned a) []) : M.Emits (.ret a) P :=
  ⟨fun _ _ => h⟩

theorem emits_throw {e : S.Exn} {P : TracePost S α} (h : P (.raised e) []) :
    M.Emits (.throw e) P :=
  ⟨fun _ _ => h⟩

theorem Emits.mono {p : Prog S α} {P Q : TracePost S α} (h : M.Emits p P)
    (hPQ : ∀ out τ, P out τ → Q out τ) : M.Emits p Q :=
  ⟨fun cs s => hPQ _ _ (h.runs cs s)⟩

theorem Emits.and {p : Prog S α} {P Q : TracePost S α} (hP : M.Emits p P) (hQ : M.Emits p Q) :
    M.Emits p fun out τ => P out τ ∧ Q out τ :=
  ⟨fun cs s => ⟨hP.runs cs s, hQ.runs cs s⟩⟩

/-- A choice between two programs. -/
theorem emits_ite {c : Prop} [Decidable c] {p q : Prog S α} {P : TracePost S α}
    (hp : c → M.Emits p P) (hq : ¬c → M.Emits q P) : M.Emits (if c then p else q) P := by
  split
  · exact hp ‹_›
  · exact hq ‹_›

/-- One operation performs itself, or nothing where the run stops before it. -/
theorem emits_perform {o : S.Op} {P : TracePost S (S.Ans o)} (hstop : P .stopped [])
    (hret : ∀ a, P (.returned a) [⟨o, .ok a⟩]) (hraise : ∀ e, P (.raised e) [⟨o, .error e⟩]) :
    M.Emits (Prog.perform o) P := by
  refine ⟨fun cs s => ?_⟩
  cases cs with
  | nil => exact hstop
  | cons c cs =>
    simp only [Prog.perform, run, Run.after, List.singleton_append]
    cases (M.act c s o).1 with
    | ok a => exact hret a
    | error e => exact hraise e

/-- What one operation performs: itself with its answer, or nothing where the run stops. -/
structure Performs {S : Signature} (o : S.Op) (out : Outcome S.Exn (S.Ans o))
    (τ : List (Event S)) : Prop where
  returned : ∀ a, out = .returned a → τ = [⟨o, .ok a⟩]
  raised : ∀ e, out = .raised e → τ = [⟨o, .error e⟩]
  stopped : out = .stopped → τ = []

theorem emits_performs (o : S.Op) : M.Emits (Prog.perform o) fun out τ => Performs o out τ := by
  apply emits_perform
  · exact ⟨by simp, by simp, fun _ => rfl⟩
  · exact fun a => ⟨fun b hb => by rw [Outcome.returned.inj hb], by simp, by simp⟩
  · exact fun e => ⟨by simp, fun f hf => by rw [Outcome.raised.inj hf], by simp⟩

/-- A sequence performs what its first part performs, and then what its second part does. -/
theorem emits_bind {p : Prog S α} {f : α → Prog S β} {P : TracePost S α} {Q : TracePost S β}
    (hp : M.Emits p P)
    (hret : ∀ a τ, P (.returned a) τ → M.Emits (f a) fun out more => Q out (τ ++ more))
    (hraise : ∀ e τ, P (.raised e) τ → Q (.raised e) τ)
    (hstop : ∀ τ, P .stopped τ → Q .stopped τ) : M.Emits (p.bind f) Q := by
  refine ⟨fun cs s => ?_⟩
  have hfirst := hp.runs cs s
  rw [run_bind]
  cases hout : (M.run p cs s).outcome with
  | returned a =>
    rw [hout] at hfirst
    exact (hret a _ hfirst).runs _ _
  | raised e =>
    rw [hout] at hfirst
    exact hraise e _ hfirst
  | stopped =>
    rw [hout] at hfirst
    exact hstop _ hfirst

/-- A sequence that goes on with what its first part raised. -/
theorem emits_attempt_bind {p : Prog S α} {f : Except S.Exn α → Prog S β} {P : TracePost S α}
    {Q : TracePost S β} (hp : M.Emits p P)
    (hret : ∀ a τ, P (.returned a) τ → M.Emits (f (.ok a)) fun out more => Q out (τ ++ more))
    (hraise : ∀ e τ, P (.raised e) τ → M.Emits (f (.error e)) fun out more => Q out (τ ++ more))
    (hstop : ∀ τ, P .stopped τ → Q .stopped τ) : M.Emits (p.attempt.bind f) Q := by
  refine ⟨fun cs s => ?_⟩
  have hfirst := hp.runs cs s
  rw [run_bind, run_attempt]
  cases hout : (M.run p cs s).outcome with
  | returned a =>
    rw [hout] at hfirst
    exact (hret a _ hfirst).runs _ _
  | raised e =>
    rw [hout] at hfirst
    exact (hraise e _ hfirst).runs _ _
  | stopped =>
    rw [hout] at hfirst
    exact hstop _ hfirst

/-- A cleanup after a body whose exceptions it lets through. -/
theorem emits_ensuring {p : Prog S α} {cleanup : Prog S Unit} {P : TracePost S α}
    {C : TracePost S Unit} {Q : TracePost S α} (hp : M.Emits p P) (hcleanup : M.Emits cleanup C)
    (hdone : ∀ out τ more, P out τ → C (.returned ()) more → Q out (τ ++ more))
    (hraise : ∀ e out τ more, P out τ → C (.raised e) more → Q (.raised e) (τ ++ more))
    (hstopped : ∀ out τ more, P out τ → C .stopped more → Q .stopped (τ ++ more))
    (hstop : ∀ τ, P .stopped τ → Q .stopped τ) : M.Emits (p.ensuring cleanup) Q := by
  unfold Prog.ensuring
  apply emits_attempt_bind hp
  · intro a τ hreturned
    apply emits_bind hcleanup
    · intro _ more hmore
      apply emits_ret
      rw [List.append_nil]
      exact hdone _ τ more hreturned hmore
    · exact fun e more hmore => hraise e _ τ more hreturned hmore
    · exact fun more hmore => hstopped _ τ more hreturned hmore
  · intro e τ hraised
    apply emits_bind hcleanup
    · intro _ more hmore
      apply emits_throw
      rw [List.append_nil]
      exact hdone _ τ more hraised hmore
    · exact fun e' more hmore => hraise e' _ τ more hraised hmore
    · exact fun more hmore => hstopped _ τ more hraised hmore
  · exact hstop

/-- A sequence that is specified by what its parts perform, however they end. -/
theorem emits_then {p : Prog S α} {f : α → Prog S β} {P Q R : List (Event S) → Prop}
    (hp : M.Emits p fun _ τ => P τ) (hf : ∀ a, M.Emits (f a) fun _ τ => Q τ)
    (hboth : ∀ τ more, P τ → Q more → R (τ ++ more)) (hfirst : ∀ τ, P τ → R τ) :
    M.Emits (p.bind f) fun _ τ => R τ := by
  apply emits_bind hp
  · intro a τ hτ
    exact (hf a).mono fun _ more hmore => hboth τ more hτ hmore
  · exact fun _ => hfirst
  · exact hfirst

/-- A run whose answers are as relied on performs what is guaranteed. -/
theorem emits_of_meets {rely : (o : S.Op) → Except S.Exn (S.Ans o) → Prop} {guarantee : S.Op → Prop}
    {R : α → Prop} {p : Prog S α} (h : p.Meets rely guarantee R) :
    M.Emits p fun out τ => (∀ event ∈ τ, rely event.op event.ans) →
      (∀ event ∈ τ, guarantee event.op) ∧ ∀ a, out = .returned a → R a :=
  ⟨fun cs s => M.run_of_meets h cs s⟩

/-- A sequence whose first part guarantees its operations and its result. -/
theorem emits_meets_then {guarantee : S.Op → Prop} {R : α → Prop} {p : Prog S α}
    {f : α → Prog S β} {P Q : List (Event S) → Prop}
    (hp : p.Meets (fun _ _ => True) guarantee R) (hf : ∀ a, R a → M.Emits (f a) fun _ τ => P τ)
    (hboth : ∀ τ more, (∀ event ∈ τ, guarantee event.op) → P more → Q (τ ++ more))
    (hfirst : ∀ τ, (∀ event ∈ τ, guarantee event.op) → Q τ) :
    M.Emits (p.bind f) fun _ τ => Q τ := by
  apply emits_bind (emits_of_meets hp)
  · intro a τ hτ
    obtain ⟨hguarantee, hreturned⟩ := hτ fun _ _ => trivial
    exact (hf a (hreturned a rfl)).mono fun _ more hmore => hboth τ more hguarantee hmore
  · exact fun _ τ hτ => hfirst τ (hτ fun _ _ => trivial).1
  · exact fun τ hτ => hfirst τ (hτ fun _ _ => trivial).1

theorem emits_of_uses {allowed : S.Op → Prop} {p : Prog S α} (h : p.Uses allowed) :
    M.Emits p fun _ τ => ∀ event ∈ τ, allowed event.op :=
  ⟨fun cs s => M.mem_trace_of_uses h cs s⟩

variable (M) in
/-- A run of a program, from some state, that ends and performs so. -/
def Performed (p : Prog S α) (out : Outcome S.Exn α) (τ : List (Event S)) : Prop :=
  ∃ cs s, out = (M.run p cs s).outcome ∧ τ = (M.run p cs s).trace

theorem emits_performed (p : Prog S α) : M.Emits p (M.Performed p) :=
  ⟨fun cs s => ⟨cs, s, rfl, rfl⟩⟩

end System

end Interaction

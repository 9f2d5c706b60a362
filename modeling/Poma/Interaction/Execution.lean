import Poma.Interaction.Program

/-!
# Running interaction programs

A system answers every operation from a state and one choice of its
environment. A run consumes a list of choices, one for each operation, and stops
where the list ends: the lists of choices therefore range over every behaviour
of the environment and every point at which the running process can be killed.
Nothing is rolled back on a stop, the state is the one the last operation left.
-/

namespace Interaction

/-- How a run of a program ended; `stopped` is the killed process. -/
inductive Outcome (ε α : Type) where
  | returned (a : α)
  | raised (e : ε)
  | stopped
  deriving DecidableEq

/-- An outcome with exceptions as values. -/
def Outcome.asValue {ε α : Type} : Outcome ε α → Outcome ε (Except ε α)
  | .returned a => .returned (.ok a)
  | .raised e => .returned (.error e)
  | .stopped => .stopped

/-- One performed operation together with the answer it got. -/
structure Event (S : Signature) where
  /-- The operation performed. -/
  op : S.Op
  /-- What came back: a value or an exception. -/
  ans : Except S.Exn (S.Ans op)

/-- An environment for the signature `S` over the states `σ`. -/
structure System (S : Signature) (σ : Type) where
  /-- What the environment decides at one operation. -/
  Choice : Type
  /-- The answer to an operation and the state it leaves. -/
  act : Choice → σ → (o : S.Op) → Except S.Exn (S.Ans o) × σ

/-- What a run leaves behind. -/
structure Run (S : Signature) (σ α : Type) where
  /-- The operations performed, in order. -/
  trace : List (Event S)
  /-- How the program ended. -/
  outcome : Outcome S.Exn α
  /-- The state after the last operation. -/
  state : σ

/-- The run that performed earlier operations first. -/
def Run.after {S : Signature} {σ α : Type} (τ : List (Event S)) (r : Run S σ α) : Run S σ α :=
  ⟨τ ++ r.trace, r.outcome, r.state⟩

/-- A condition on how a run ended, its whole trace and its last state. -/
abbrev Post (S : Signature) (σ α : Type) : Type :=
  Outcome S.Exn α → List (Event S) → σ → Prop

namespace System

variable {S : Signature} {σ α β γ : Type} (M : System S σ)

/-- Run a program under a list of choices of the environment. -/
def run : Prog S α → List M.Choice → σ → Run S σ α
  | .ret a, _, s => ⟨[], .returned a, s⟩
  | .throw e, _, s => ⟨[], .raised e, s⟩
  | .call _ _, [], s => ⟨[], .stopped, s⟩
  | .call o k, c :: cs, s =>
    (run (k (M.act c s o).1) cs (M.act c s o).2).after [⟨o, (M.act c s o).1⟩]

/-- The weakest condition under which every run, stopped ones included, ends in `Q`. -/
def wp : Prog S α → Post S σ α → List (Event S) → σ → Prop
  | .ret a, Q, τ, s => Q (.returned a) τ s
  | .throw e, Q, τ, s => Q (.raised e) τ s
  | .call o k, Q, τ, s => Q .stopped τ s ∧
      ∀ c, wp (k (M.act c s o).1) Q (τ ++ [⟨o, (M.act c s o).1⟩]) (M.act c s o).2

@[simp] theorem wp_ret (a : α) (Q : Post S σ α) (τ : List (Event S)) (s : σ) :
    M.wp (.ret a) Q τ s ↔ Q (.returned a) τ s := Iff.rfl

@[simp] theorem wp_throw (e : S.Exn) (Q : Post S σ α) (τ : List (Event S)) (s : σ) :
    M.wp (.throw e) Q τ s ↔ Q (.raised e) τ s := Iff.rfl

theorem wp_call (o : S.Op) (k : Except S.Exn (S.Ans o) → Prog S α) (Q : Post S σ α)
    (τ : List (Event S)) (s : σ) :
    M.wp (.call o k) Q τ s ↔ Q .stopped τ s ∧
      ∀ c, M.wp (k (M.act c s o).1) Q (τ ++ [⟨o, (M.act c s o).1⟩]) (M.act c s o).2 := Iff.rfl

/-- The precondition is met exactly when every list of choices ends in `Q`. -/
theorem wp_iff_run (p : Prog S α) (Q : Post S σ α) (τ : List (Event S)) (s : σ) :
    M.wp p Q τ s ↔
      ∀ cs, Q (M.run p cs s).outcome (τ ++ (M.run p cs s).trace) (M.run p cs s).state := by
  induction p generalizing τ s with
  | ret a => simp [run]
  | throw e => simp [run]
  | call o k ih =>
    rw [wp_call]
    constructor
    · rintro ⟨hstop, hgo⟩ cs
      cases cs with
      | nil => simpa [run] using hstop
      | cons c cs =>
        have h := (ih _ _ _).mp (hgo c) cs
        simpa [run, Run.after] using h
    · intro h
      refine ⟨by simpa [run] using h [], fun c => (ih _ _ _).mpr fun cs => ?_⟩
      simpa [run, Run.after] using h (c :: cs)

/-- A precondition bounds every run from the start. -/
theorem wp_run {p : Prog S α} {Q : Post S σ α} {s : σ} (h : M.wp p Q [] s)
    (cs : List M.Choice) :
    Q (M.run p cs s).outcome (M.run p cs s).trace (M.run p cs s).state := by
  simpa using (M.wp_iff_run p Q [] s).mp h cs

theorem wp_mono {p : Prog S α} {P Q : Post S σ α} {τ : List (Event S)} {s : σ}
    (h : M.wp p P τ s) (hPQ : ∀ out τ' s', P out τ' s' → Q out τ' s') : M.wp p Q τ s := by
  rw [wp_iff_run] at h ⊢
  exact fun cs => hPQ _ _ _ (h cs)

/-- Two facts about the same program hold together. -/
theorem wp_and {p : Prog S α} {P Q : Post S σ α} {τ : List (Event S)} {s : σ}
    (hP : M.wp p P τ s) (hQ : M.wp p Q τ s) :
    M.wp p (fun out τ' s' => P out τ' s' ∧ Q out τ' s') τ s := by
  rw [wp_iff_run] at hP hQ ⊢
  exact fun cs => ⟨hP cs, hQ cs⟩

/-- What must hold after the first part for the sequence to end in `Q`. -/
def seq (f : α → Prog S β) (Q : Post S σ β) : Post S σ α
  | .returned a => fun τ s => M.wp (f a) Q τ s
  | .raised e => Q (.raised e)
  | .stopped => Q .stopped

@[simp] theorem seq_returned (f : α → Prog S β) (Q : Post S σ β) (a : α)
    (τ : List (Event S)) (s : σ) : M.seq f Q (.returned a) τ s ↔ M.wp (f a) Q τ s := Iff.rfl

@[simp] theorem seq_raised (f : α → Prog S β) (Q : Post S σ β) (e : S.Exn)
    (τ : List (Event S)) (s : σ) : M.seq f Q (.raised e) τ s ↔ Q (.raised e) τ s := Iff.rfl

@[simp] theorem seq_stopped (f : α → Prog S β) (Q : Post S σ β)
    (τ : List (Event S)) (s : σ) : M.seq f Q .stopped τ s ↔ Q .stopped τ s := Iff.rfl

@[simp] theorem wp_bind (p : Prog S α) (f : α → Prog S β) (Q : Post S σ β)
    (τ : List (Event S)) (s : σ) : M.wp (p.bind f) Q τ s ↔ M.wp p (M.seq f Q) τ s := by
  induction p generalizing τ s with
  | ret a => exact Iff.rfl
  | throw e => exact Iff.rfl
  | call o k ih =>
    simp only [Prog.bind, wp_call, ih, seq_stopped]

/-- What must hold of the outcome kept as a value. -/
def caught (Q : Post S σ (Except S.Exn α)) : Post S σ α
  | .returned a => Q (.returned (.ok a))
  | .raised e => Q (.returned (.error e))
  | .stopped => Q .stopped

@[simp] theorem caught_returned (Q : Post S σ (Except S.Exn α)) (a : α)
    (τ : List (Event S)) (s : σ) :
    caught Q (.returned a) τ s ↔ Q (.returned (.ok a)) τ s := Iff.rfl

@[simp] theorem caught_raised (Q : Post S σ (Except S.Exn α)) (e : S.Exn)
    (τ : List (Event S)) (s : σ) :
    caught Q (.raised e) τ s ↔ Q (.returned (.error e)) τ s := Iff.rfl

@[simp] theorem caught_stopped (Q : Post S σ (Except S.Exn α))
    (τ : List (Event S)) (s : σ) : caught Q .stopped τ s ↔ Q .stopped τ s := Iff.rfl

@[simp] theorem wp_attempt (p : Prog S α) (Q : Post S σ (Except S.Exn α))
    (τ : List (Event S)) (s : σ) : M.wp p.attempt Q τ s ↔ M.wp p (caught Q) τ s := by
  induction p generalizing τ s with
  | ret a => exact Iff.rfl
  | throw e => exact Iff.rfl
  | call o k ih =>
    simp only [Prog.attempt, wp_call, ih, caught_stopped]

theorem wp_perform (o : S.Op) (Q : Post S σ (S.Ans o)) (τ : List (Event S)) (s : σ) :
    M.wp (Prog.perform o) Q τ s ↔ Q .stopped τ s ∧ ∀ c,
      match (M.act c s o).1 with
      | .ok a => Q (.returned a) (τ ++ [⟨o, .ok a⟩]) (M.act c s o).2
      | .error e => Q (.raised e) (τ ++ [⟨o, .error e⟩]) (M.act c s o).2 := by
  rw [Prog.perform, wp_call]
  refine and_congr_right fun _ => forall_congr' fun c => ?_
  cases (M.act c s o).1 <;> exact Iff.rfl

theorem wp_true (p : Prog S α) (τ : List (Event S)) (s : σ) :
    M.wp p (fun _ _ _ => True) τ s := by
  rw [wp_iff_run]
  exact fun _ => trivial

/-- A sequence, from a specification of its first part. -/
theorem wp_seq {p : Prog S α} {f : α → Prog S β} {P : Post S σ α} {Q : Post S σ β}
    {τ : List (Event S)} {s : σ} (hp : M.wp p P τ s)
    (hret : ∀ a τ' s', P (.returned a) τ' s' → M.wp (f a) Q τ' s')
    (hraise : ∀ e τ' s', P (.raised e) τ' s' → Q (.raised e) τ' s')
    (hstop : ∀ τ' s', P .stopped τ' s' → Q .stopped τ' s') : M.wp (p.bind f) Q τ s := by
  rw [wp_bind]
  refine M.wp_mono hp fun out τ' s' h => ?_
  cases out with
  | returned a => exact hret a τ' s' h
  | raised e => exact hraise e τ' s' h
  | stopped => exact hstop τ' s' h

/-- A handler, from a specification of the body. -/
theorem wp_catching {p : Prog S α} {handler : S.Exn → Prog S α} {P Q : Post S σ α}
    {τ : List (Event S)} {s : σ} (hp : M.wp p P τ s)
    (hret : ∀ a τ' s', P (.returned a) τ' s' → Q (.returned a) τ' s')
    (hraise : ∀ e τ' s', P (.raised e) τ' s' → M.wp (handler e) Q τ' s')
    (hstop : ∀ τ' s', P .stopped τ' s' → Q .stopped τ' s') : M.wp (p.catching handler) Q τ s := by
  rw [Prog.catching, wp_bind, wp_attempt]
  refine M.wp_mono hp fun out τ' s' h => ?_
  cases out with
  | returned a => exact hret a τ' s' h
  | raised e => exact hraise e τ' s' h
  | stopped => exact hstop τ' s' h

/-- A collecting loop, by an invariant over what is left and what was collected. -/
theorem wp_collect {f : β → Prog S γ} {Q : Post S σ (List γ)}
    (I : List β → List γ → List (Event S) → σ → Prop)
    (hstep : ∀ b bs cs τ s, I (b :: bs) cs τ s → M.wp (f b) (fun out τ' s' =>
      match out with
      | .returned c => I bs (cs ++ [c]) τ' s'
      | .raised e => Q (.raised e) τ' s'
      | .stopped => Q .stopped τ' s') τ s)
    (hdone : ∀ cs τ s, I [] cs τ s → Q (.returned cs) τ s)
    {bs : List β} {τ : List (Event S)} {s : σ} (h : I bs [] τ s) :
    M.wp (Prog.collect f bs) Q τ s := by
  suffices hgen : ∀ bs cs τ s, I bs cs τ s → M.wp (Prog.collect f bs) (fun out τ' s' =>
      match out with
      | .returned rest => Q (.returned (cs ++ rest)) τ' s'
      | .raised e => Q (.raised e) τ' s'
      | .stopped => Q .stopped τ' s') τ s by
    refine M.wp_mono (hgen bs [] τ s h) fun out τ' s' hq => ?_
    cases out <;> exact hq
  intro bs
  induction bs with
  | nil =>
    intro cs τ s h
    simpa [Prog.collect] using hdone cs τ s h
  | cons b bs ih =>
    intro cs τ s h
    refine M.wp_seq (hstep b bs cs τ s h) ?_ (fun _ _ _ hq => hq) (fun _ _ hq => hq)
    intro c τ' s' hI
    refine M.wp_seq (ih (cs ++ [c]) τ' s' hI) ?_ (fun _ _ _ hq => hq) (fun _ _ hq => hq)
    intro rest τ'' s'' hq
    simpa using hq

/-- A loop run for its effects, by an invariant over what is left. -/
theorem wp_forEach {f : β → Prog S Unit} {Q : Post S σ Unit}
    (I : List β → List (Event S) → σ → Prop)
    (hstep : ∀ b bs τ s, I (b :: bs) τ s → M.wp (f b) (fun out τ' s' =>
      match out with
      | .returned _ => I bs τ' s'
      | .raised e => Q (.raised e) τ' s'
      | .stopped => Q .stopped τ' s') τ s)
    (hdone : ∀ τ s, I [] τ s → Q (.returned ()) τ s)
    {bs : List β} {τ : List (Event S)} {s : σ} (h : I bs τ s) :
    M.wp (Prog.forEach f bs) Q τ s := by
  induction bs generalizing τ s with
  | nil => exact hdone τ s h
  | cons b bs ih =>
    refine M.wp_seq (hstep b bs τ s h) ?_ (fun _ _ _ hq => hq) (fun _ _ hq => hq)
    intro _ τ' s' hI
    exact ih hI

/-- Every operation of the program keeps the invariant, so every run does: the
answers are as relied on, and the returned value is as stated. -/
theorem wp_of_meets {rely : (o : S.Op) → Except S.Exn (S.Ans o) → Prop}
    {guarantee : S.Op → Prop} {R : α → Prop} {I : List (Event S) → σ → Prop}
    {p : Prog S α} (hp : p.Meets rely guarantee R)
    (hop : ∀ o, guarantee o → ∀ c τ s, I τ s → rely o (M.act c s o).1 ∧
      I (τ ++ [⟨o, (M.act c s o).1⟩]) (M.act c s o).2)
    {τ : List (Event S)} {s : σ} (h : I τ s) :
    M.wp p (fun out τ' s' => I τ' s' ∧ ∀ a, out = .returned a → R a) τ s := by
  induction p generalizing τ s with
  | ret a =>
    refine ⟨h, fun b hb => ?_⟩
    cases hb
    exact hp
  | throw e => exact ⟨h, nofun⟩
  | call o k ih =>
    refine ⟨⟨h, nofun⟩, fun c => ?_⟩
    obtain ⟨hr, hI⟩ := hop o hp.1 c τ s h
    exact ih _ (hp.2 _ hr) hI

/-- Every allowed operation keeps the invariant, so every run does. -/
theorem wp_of_uses {allowed : S.Op → Prop} {I : List (Event S) → σ → Prop} {p : Prog S α}
    (hp : p.Uses allowed)
    (hop : ∀ o, allowed o → ∀ c τ s, I τ s → I (τ ++ [⟨o, (M.act c s o).1⟩]) (M.act c s o).2)
    {τ : List (Event S)} {s : σ} (h : I τ s) : M.wp p (fun _ τ' s' => I τ' s') τ s :=
  M.wp_mono (M.wp_of_meets hp (fun o ho c τ s hI => ⟨trivial, hop o ho c τ s hI⟩) h)
    fun _ _ _ hI => hI.1

/-- The system whose environment only makes choices that satisfy `P`. -/
def restrict (P : M.Choice → Prop) : System S σ where
  Choice := { c // P c }
  act c := M.act c.1

/-- A precondition in the restricted system speaks of the runs under allowed choices. -/
theorem wp_restrict_iff (P : M.Choice → Prop) (p : Prog S α) (Q : Post S σ α)
    (τ : List (Event S)) (s : σ) :
    (M.restrict P).wp p Q τ s ↔ ∀ cs : List M.Choice, (∀ c ∈ cs, P c) →
      Q (M.run p cs s).outcome (τ ++ (M.run p cs s).trace) (M.run p cs s).state := by
  induction p generalizing τ s with
  | ret a =>
    simp only [wp_ret, run, List.append_nil]
    exact ⟨fun h _ _ => h, fun h => h [] (by simp)⟩
  | throw e =>
    simp only [wp_throw, run, List.append_nil]
    exact ⟨fun h _ _ => h, fun h => h [] (by simp)⟩
  | call o k ih =>
    rw [wp_call]
    constructor
    · rintro ⟨hstop, hgo⟩ cs hcs
      cases cs with
      | nil => simpa [run] using hstop
      | cons c cs =>
        have hc : P c := hcs c List.mem_cons_self
        have h := (ih _ _ _).mp (hgo ⟨c, hc⟩) cs fun d hd => hcs d (List.mem_cons_of_mem _ hd)
        simpa [run, Run.after, restrict] using h
    · intro h
      refine ⟨by simpa [run] using h [] (by simp), fun c => (ih _ _ _).mpr fun cs hcs => ?_⟩
      have hcons : ∀ d ∈ c.1 :: cs, P d := by
        intro d hd
        rcases List.mem_cons.mp hd with rfl | hd
        · exact c.2
        · exact hcs d hd
      simpa [run, Run.after, restrict] using h (c.1 :: cs) hcons

/-- A precondition in the restricted system bounds the runs under allowed choices. -/
theorem wp_restrict_run {P : M.Choice → Prop} {p : Prog S α} {Q : Post S σ α} {s : σ}
    (h : (M.restrict P).wp p Q [] s) {cs : List M.Choice} (hcs : ∀ c ∈ cs, P c) :
    Q (M.run p cs s).outcome (M.run p cs s).trace (M.run p cs s).state := by
  simpa using (M.wp_restrict_iff P p Q [] s).mp h cs hcs

/-- Running a sequence: the second part uses the choices the first left over. -/
theorem run_bind (p : Prog S α) (f : α → Prog S β) (cs : List M.Choice) (s : σ) :
    M.run (p.bind f) cs s =
      match (M.run p cs s).outcome with
      | .returned a => (M.run (f a) (cs.drop (M.run p cs s).trace.length)
          (M.run p cs s).state).after (M.run p cs s).trace
      | .raised e => ⟨(M.run p cs s).trace, .raised e, (M.run p cs s).state⟩
      | .stopped => ⟨(M.run p cs s).trace, .stopped, (M.run p cs s).state⟩ := by
  induction p generalizing cs s with
  | ret a => simp [run, Prog.bind, Run.after]
  | throw e => simp [run, Prog.bind]
  | call o k ih =>
    cases cs with
    | nil => simp [run, Prog.bind]
    | cons c cs =>
      simp only [run, Prog.bind, ih, Run.after]
      cases (M.run (k (M.act c s o).1) cs (M.act c s o).2).outcome <;> simp

/-- Running a program for its outcome as a value. -/
theorem run_attempt (p : Prog S α) (cs : List M.Choice) (s : σ) :
    M.run p.attempt cs s =
      ⟨(M.run p cs s).trace, (M.run p cs s).outcome.asValue, (M.run p cs s).state⟩ := by
  induction p generalizing cs s with
  | ret a => rfl
  | throw e => rfl
  | call o k ih =>
    cases cs with
    | nil => rfl
    | cons c cs => simp only [run, Prog.attempt, ih, Run.after]

/-- A run performs only operations its program can reach. -/
theorem mem_trace_of_uses {allowed : S.Op → Prop} {p : Prog S α} (hp : p.Uses allowed)
    (cs : List M.Choice) (s : σ) : ∀ event ∈ (M.run p cs s).trace, allowed event.op := by
  refine M.wp_run (Q := fun _ τ _ => ∀ event ∈ τ, allowed event.op) ?_ cs
  refine M.wp_of_uses (I := fun τ _ => ∀ event ∈ τ, allowed event.op) hp ?_ (by simp)
  intro o ho c τ s hτ event hevent
  rcases List.mem_append.mp hevent with h | h
  · exact hτ event h
  · rw [List.mem_singleton.mp h]
    exact ho

/-- A run only adds to the trace. -/
theorem wp_extends (p : Prog S α) (τ : List (Event S)) (s : σ) :
    M.wp p (fun _ τ' _ => τ <+: τ') τ s := by
  rw [wp_iff_run]
  exact fun cs => List.prefix_append _ _

/-- A program's own run as the precondition sees it: the events it adds, and where it ends. -/
theorem wp_own_run (p : Prog S α) (τ : List (Event S)) (s : σ) :
    M.wp p (fun out τ' s' => ∃ cs, out = (M.run p cs s).outcome ∧
      τ' = τ ++ (M.run p cs s).trace ∧ s' = (M.run p cs s).state) τ s := by
  rw [wp_iff_run]
  exact fun cs => ⟨cs, rfl, rfl, rfl⟩

/-- In a run whose answers are as relied on, every operation is guaranteed. -/
theorem run_of_meets {rely : (o : S.Op) → Except S.Exn (S.Ans o) → Prop} {guarantee : S.Op → Prop}
    {R : α → Prop} {p : Prog S α} (hp : p.Meets rely guarantee R) (cs : List M.Choice) (s : σ)
    (hrely : ∀ event ∈ (M.run p cs s).trace, rely event.op event.ans) :
    (∀ event ∈ (M.run p cs s).trace, guarantee event.op) ∧
      ∀ a, (M.run p cs s).outcome = .returned a → R a := by
  induction p generalizing cs s with
  | ret a =>
    refine ⟨nofun, fun b hb => ?_⟩
    cases hb
    exact hp
  | throw e => exact ⟨nofun, nofun⟩
  | call o k ih =>
    cases cs with
    | nil => exact ⟨nofun, nofun⟩
    | cons c cs =>
      simp only [run, Run.after, List.singleton_append, List.forall_mem_cons] at hrely ⊢
      obtain ⟨htrace, hout⟩ := ih _ (hp.2 _ hrely.1) cs _ hrely.2
      exact ⟨⟨hp.1, htrace⟩, hout⟩

/-- Some list of choices lets the program end: programs terminate. -/
theorem exists_run_ends (p : Prog S α) (c : M.Choice) (s : σ) :
    ∃ n, (M.run p (List.replicate n c) s).outcome ≠ .stopped := by
  induction p generalizing s with
  | ret a => exact ⟨0, by simp [run]⟩
  | throw e => exact ⟨0, by simp [run]⟩
  | call o k ih =>
    obtain ⟨n, hn⟩ := ih (M.act c s o).1 (M.act c s o).2
    exact ⟨n + 1, by simpa [run, Run.after, List.replicate_succ] using hn⟩

end System

end Interaction

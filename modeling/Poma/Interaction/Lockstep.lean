import Poma.Interaction.Execution

/-!
# Two runs in lockstep

What two runs of related programs have in common. A coupling says which
operations of the two correspond and which answers are taken to correspond;
programs are alike when they go on alike under corresponding answers. Two
environments that answer so drive alike programs to corresponding ends.
-/

namespace Interaction

/-- Which operations of two runs correspond, and which answers to these. -/
structure Coupling (S : Signature) where
  op : S.Op → S.Op → Prop
  ans : (o o' : S.Op) → S.Ans o → S.Ans o' → Prop

/-- Answers that correspond: values as stated, or the same exception. -/
def Coupling.Answers {S : Signature} (C : Coupling S) (o o' : S.Op) :
    Except S.Exn (S.Ans o) → Except S.Exn (S.Ans o') → Prop
  | .ok a, .ok a' => C.ans o o' a a'
  | .error e, .error e' => e = e'
  | _, _ => False

/-- Outcomes of a program as values that correspond. -/
def ExceptAlike {ε α β : Type} (R : α → β → Prop) : Except ε α → Except ε β → Prop
  | .ok a, .ok b => R a b
  | .error e, .error e' => e = e'
  | _, _ => False

/-- Ends of two runs that correspond, unless one of them was killed. -/
def Outcome.Alike {ε α β : Type} (R : α → β → Prop) : Outcome ε α → Outcome ε β → Prop
  | .returned a, .returned b => R a b
  | .raised e, .raised e' => e = e'
  | .returned _, .raised _ => False
  | .raised _, .returned _ => False
  | _, _ => True

namespace Prog

variable {S : Signature} {α β γ δ : Type} {C : Coupling S} {R : α → β → Prop}
  {T : γ → δ → Prop}

/-- Two programs that go on alike under corresponding answers. -/
def Alike (C : Coupling S) (R : α → β → Prop) : Prog S α → Prog S β → Prop
  | .ret a, .ret b => R a b
  | .throw e, .throw e' => e = e'
  | .call o k, .call o' k' =>
    C.op o o' ∧ ∀ r r', C.Answers o o' r r' → (k r).Alike C R (k' r')
  | _, _ => False

theorem alike_throw (e : S.Exn) : (throw e : Prog S α).Alike C R (throw e : Prog S β) := rfl

/-- Corresponding operations return corresponding values. -/
theorem alike_perform (o o' : S.Op) (h : C.op o o') :
    (perform o).Alike C (C.ans o o') (perform o') := by
  refine ⟨h, fun r r' hr => ?_⟩
  cases r with
  | ok a =>
    cases r' with
    | ok a' => exact hr
    | error e' => exact hr.elim
  | error e =>
    cases r' with
    | ok a' => exact hr.elim
    | error e' => exact hr

theorem Alike.mono {p : Prog S α} {q : Prog S β} {R' : α → β → Prop} (h : p.Alike C R q)
    (hR : ∀ a b, R a b → R' a b) : p.Alike C R' q := by
  induction p generalizing q with
  | ret a =>
    cases q with
    | ret b => exact hR a b h
    | throw e => exact h.elim
    | call o k => exact h.elim
  | throw e =>
    cases q with
    | ret b => exact h.elim
    | throw e' => exact h
    | call o k => exact h.elim
  | call o k ih =>
    cases q with
    | ret b => exact h.elim
    | throw e => exact h.elim
    | call o' k' => exact ⟨h.1, fun r r' hr => ih r (h.2 r r' hr)⟩

theorem alike_bind {p : Prog S α} {q : Prog S β} {f : α → Prog S γ} {g : β → Prog S δ}
    (h : p.Alike C R q) (hf : ∀ a b, R a b → (f a).Alike C T (g b)) :
    (p.bind f).Alike C T (q.bind g) := by
  induction p generalizing q with
  | ret a =>
    cases q with
    | ret b => exact hf a b h
    | throw e => exact h.elim
    | call o k => exact h.elim
  | throw e =>
    cases q with
    | ret b => exact h.elim
    | throw e' => exact h
    | call o k => exact h.elim
  | call o k ih =>
    cases q with
    | ret b => exact h.elim
    | throw e => exact h.elim
    | call o' k' => exact ⟨h.1, fun r r' hr => ih r (h.2 r r' hr)⟩

theorem alike_attempt {p : Prog S α} {q : Prog S β} (h : p.Alike C R q) :
    p.attempt.Alike C (ExceptAlike R) q.attempt := by
  induction p generalizing q with
  | ret a =>
    cases q with
    | ret b => exact h
    | throw e => exact h.elim
    | call o k => exact h.elim
  | throw e =>
    cases q with
    | ret b => exact h.elim
    | throw e' => exact h
    | call o k => exact h.elim
  | call o k ih =>
    cases q with
    | ret b => exact h.elim
    | throw e => exact h.elim
    | call o' k' => exact ⟨h.1, fun r r' hr => ih r (h.2 r r' hr)⟩

/-- Handlers that go on alike after the same exception. -/
theorem alike_catching {p : Prog S α} {q : Prog S β} {handler : S.Exn → Prog S α}
    {handler' : S.Exn → Prog S β} (h : p.Alike C R q)
    (hh : ∀ e, (handler e).Alike C R (handler' e)) :
    (p.catching handler).Alike C R (q.catching handler') := by
  refine alike_bind (alike_attempt h) fun r r' hr => ?_
  cases r with
  | ok a =>
    cases r' with
    | ok b => exact hr
    | error e' => exact hr.elim
  | error e =>
    cases r' with
    | ok b => exact hr.elim
    | error e' =>
      obtain rfl : e = e' := hr
      exact hh e

theorem alike_ite {c : Prop} [Decidable c] {p p' : Prog S α} {q q' : Prog S β}
    (h : c → p.Alike C R q) (h' : ¬c → p'.Alike C R q') :
    (if c then p else p').Alike C R (if c then q else q') := by
  by_cases hc : c
  · rw [if_pos hc, if_pos hc]
    exact h hc
  · rw [if_neg hc, if_neg hc]
    exact h' hc

/-- A program is like itself where its operations are answered by equals. -/
theorem alike_refl {allowed : S.Op → Prop} {p : Prog S α} (hp : p.Uses allowed)
    (hop : ∀ o, allowed o → C.op o o ∧ ∀ a a', C.ans o o a a' → a = a') :
    p.Alike C (· = ·) p := by
  induction p with
  | ret a => exact rfl
  | throw e => exact rfl
  | call o k ih =>
    refine ⟨(hop o hp.1).1, fun r r' hr => ?_⟩
    have hsame : r = r' := by
      cases r with
      | ok a =>
        cases r' with
        | ok a' => rw [(hop o hp.1).2 a a' hr]
        | error e' => exact hr.elim
      | error e =>
        cases r' with
        | ok a' => exact hr.elim
        | error e' =>
          obtain rfl : e = e' := hr
          rfl
    subst hsame
    exact ih r (hp.2 r trivial)

end Prog

namespace System

variable {S : Signature} {σ σ' α β : Type} {M : System S σ} {M' : System S σ'} {C : Coupling S}
  {R : α → β → Prop}

/-- Runs of alike programs end alike where corresponding operations are answered alike: `P` is
what is known of the two traces from some point on, and `I` of the two states. -/
theorem run_alike {P : List (Event S) → List (Event S) → Prop} {I : σ → σ' → Prop}
    (hstep : ∀ o o' c c' s s' τ τ', C.op o o' → I s s' →
      P (⟨o, (M.act c s o).1⟩ :: τ) (⟨o', (M'.act c' s' o').1⟩ :: τ') →
      C.Answers o o' (M.act c s o).1 (M'.act c' s' o').1 ∧
        I (M.act c s o).2 (M'.act c' s' o').2 ∧ P τ τ')
    {p : Prog S α} {q : Prog S β} (h : p.Alike C R q) (cs : List M.Choice) (cs' : List M'.Choice)
    {s : σ} {s' : σ'} (hI : I s s') (hP : P (M.run p cs s).trace (M'.run q cs' s').trace) :
    (M.run p cs s).outcome.Alike R (M'.run q cs' s').outcome ∧
      ((M.run p cs s).outcome ≠ .stopped → (M'.run q cs' s').outcome ≠ .stopped →
        I (M.run p cs s).state (M'.run q cs' s').state) := by
  induction p generalizing q cs cs' s s' with
  | ret a =>
    cases q with
    | ret b => exact ⟨h, fun _ _ => hI⟩
    | throw e => exact h.elim
    | call o k => exact h.elim
  | throw e =>
    cases q with
    | ret b => exact h.elim
    | throw e' => exact ⟨h, fun _ _ => hI⟩
    | call o k => exact h.elim
  | call o k ih =>
    cases q with
    | ret b => exact h.elim
    | throw e => exact h.elim
    | call o' k' =>
      cases cs with
      | nil => exact ⟨by cases (M'.run (.call o' k') cs' s').outcome <;> trivial, fun hne => absurd rfl hne⟩
      | cons c cs =>
        cases cs' with
        | nil =>
          exact ⟨by cases (M.run (.call o k) (c :: cs) s).outcome <;> trivial,
            fun _ hne => absurd rfl hne⟩
        | cons c' cs' =>
          simp only [run, Run.after, List.singleton_append] at hP ⊢
          obtain ⟨hanswers, hstate, htail⟩ := hstep o o' c c' s s' _ _ h.1 hI hP
          exact ih _ (h.2 _ _ hanswers) cs cs' hstate htail

end System

end Interaction

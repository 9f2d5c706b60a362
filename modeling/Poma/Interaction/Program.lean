import Mathlib.Data.List.Basic

/-!
# Interaction programs

A program over a signature of operations either returns, raises, or performs
one operation and goes on with whatever answer comes back. The tree fixes no
meaning for the operations: an answer may be a value or an exception, and both
are handed to the continuation, so a program can catch what an operation raises.
-/

namespace Interaction

/-- A sequence yields a value exactly when its first part does and the rest does from there. -/
theorem bind_eq_ok {ε α β : Type} {x : Except ε α} {f : α → Except ε β} {b : β} :
    (x >>= f) = .ok b ↔ ∃ a, x = .ok a ∧ f a = .ok b := by
  cases x with
  | error e =>
    constructor
    · intro h
      cases h
    · rintro ⟨a, h, -⟩
      cases h
  | ok a =>
    constructor
    · exact fun h => ⟨a, rfl, h⟩
    · rintro ⟨other, h, hf⟩
      obtain rfl := Except.ok.inj h
      exact hf

theorem map_eq_ok {ε α β : Type} {x : Except ε α} {f : α → β} {b : β} :
    x.map f = .ok b ↔ ∃ a, x = .ok a ∧ f a = b := by
  cases x with
  | error e => simp [Except.map]
  | ok a => simp [Except.map]

theorem mapError_eq_ok {ε ε' α : Type} {x : Except ε α} {f : ε → ε'} {a : α} :
    x.mapError f = .ok a ↔ x = .ok a := by
  cases x with
  | error e => simp [Except.mapError]
  | ok a => simp [Except.mapError]

/-- Operations, the type of answer each one expects, and the exceptions. -/
structure Signature where
  /-- The operations a program may perform. -/
  Op : Type
  /-- The value an operation yields when it does not raise. -/
  Ans : Op → Type
  /-- The exceptions operations and programs raise. -/
  Exn : Type

/-- A terminating program over the signature `S`. -/
inductive Prog (S : Signature) (α : Type) where
  | ret (a : α)
  | throw (e : S.Exn)
  | call (o : S.Op) (k : Except S.Exn (S.Ans o) → Prog S α)

namespace Prog

variable {S : Signature} {α β γ : Type}

/-- Sequential composition; an exception of the first part skips the second. -/
def bind : Prog S α → (α → Prog S β) → Prog S β
  | .ret a, f => f a
  | .throw e, _ => .throw e
  | .call o k, f => .call o fun r => (k r).bind f

instance : Monad (Prog S) where
  pure := .ret
  bind := bind

/-- Perform one operation, raising what it raises. -/
def perform (o : S.Op) : Prog S (S.Ans o) :=
  .call o fun
    | .ok a => .ret a
    | .error e => .throw e

/-- Continue with the outcome of a program as a value, exceptions included. -/
def attempt : Prog S α → Prog S (Except S.Exn α)
  | .ret a => .ret (.ok a)
  | .throw e => .ret (.error e)
  | .call o k => .call o fun r => (k r).attempt

/-- Return a value or raise an exception already in hand. -/
def ofExcept : Except S.Exn α → Prog S α
  | .ok a => .ret a
  | .error e => .throw e

/-- Run a handler on any exception the body raises. -/
def catching (p : Prog S α) (handler : S.Exn → Prog S α) : Prog S α :=
  p.attempt.bind fun
    | .ok a => .ret a
    | .error e => handler e

/-- Run a cleanup after the body on both exits; its own exception wins. -/
def ensuring (p : Prog S α) (cleanup : Prog S Unit) : Prog S α :=
  p.attempt.bind fun r => cleanup.bind fun _ => ofExcept r

/-- Run a program on every element in order and collect the results. -/
def collect (f : β → Prog S γ) : List β → Prog S (List γ)
  | [] => .ret []
  | b :: bs => (f b).bind fun c => (collect f bs).bind fun cs => .ret (c :: cs)

/-- Run a program on every element in order for its effects. -/
def forEach (f : β → Prog S Unit) : List β → Prog S Unit
  | [] => .ret ()
  | b :: bs => (f b).bind fun _ => forEach f bs

@[simp] theorem pure_eq_ret (a : α) : (pure a : Prog S α) = .ret a := rfl

@[simp] theorem bind_eq_bind (p : Prog S α) (f : α → Prog S β) : p >>= f = p.bind f := rfl

@[simp] theorem ret_bind (a : α) (f : α → Prog S β) : (ret a : Prog S α).bind f = f a := rfl

@[simp] theorem throw_bind (e : S.Exn) (f : α → Prog S β) :
    (throw e : Prog S α).bind f = throw e := rfl

theorem bind_assoc (p : Prog S α) (f : α → Prog S β) (g : β → Prog S γ) :
    (p.bind f).bind g = p.bind fun a => (f a).bind g := by
  induction p with
  | ret a => rfl
  | throw e => rfl
  | call o k ih =>
    simp only [bind]
    exact congrArg (call o) (funext ih)

/-- Relying on what the answers can be, every operation the program reaches is
guaranteed and every value it returns is as stated. -/
def Meets (rely : (o : S.Op) → Except S.Exn (S.Ans o) → Prop) (guarantee : S.Op → Prop)
    (R : α → Prop) : Prog S α → Prop
  | .ret a => R a
  | .throw _ => True
  | .call o k => guarantee o ∧ ∀ r, rely o r → (k r).Meets rely guarantee R

/-- Every operation the program can reach, whatever the answers, is allowed. -/
abbrev Uses (allowed : S.Op → Prop) (p : Prog S α) : Prop :=
  p.Meets (fun _ _ => True) allowed fun _ => True

section Meets

variable {rely : (o : S.Op) → Except S.Exn (S.Ans o) → Prop} {guarantee : S.Op → Prop}
  {R : α → Prop}

@[simp] theorem meets_ret {a : α} :
    (ret a : Prog S α).Meets rely guarantee R ↔ R a := Iff.rfl

@[simp] theorem meets_throw {e : S.Exn} : (throw e : Prog S α).Meets rely guarantee R :=
  trivial

theorem meets_perform {o : S.Op} (ho : guarantee o) :
    (perform o).Meets rely guarantee fun a => rely o (.ok a) :=
  ⟨ho, fun r hr => by
    cases r with
    | ok a => exact hr
    | error e => trivial⟩

theorem Meets.mono {more : S.Op → Prop} {weaker : α → Prop} {p : Prog S α}
    (hp : p.Meets rely guarantee R) (hmore : ∀ o, guarantee o → more o)
    (hweaker : ∀ a, R a → weaker a) : p.Meets rely more weaker := by
  induction p with
  | ret a => exact hweaker a hp
  | throw e => trivial
  | call o k ih => exact ⟨hmore o hp.1, fun r hr => ih r (hp.2 r hr)⟩

/-- A program that needs no assumption on the answers meets any. -/
theorem Meets.of_uses {p : Prog S α} (hp : p.Uses guarantee) :
    p.Meets rely guarantee fun _ => True := by
  induction p with
  | ret a => trivial
  | throw e => trivial
  | call o k ih => exact ⟨hp.1, fun r _ => ih r (hp.2 r trivial)⟩

theorem meets_bind {p : Prog S α} {f : α → Prog S β} {last : β → Prop}
    (hp : p.Meets rely guarantee R)
    (hf : ∀ a, R a → (f a).Meets rely guarantee last) :
    (p.bind f).Meets rely guarantee last := by
  induction p with
  | ret a => exact hf a hp
  | throw e => trivial
  | call o k ih => exact ⟨hp.1, fun r hr => ih r (hp.2 r hr)⟩

theorem meets_attempt {p : Prog S α} (hp : p.Meets rely guarantee R) :
    p.attempt.Meets rely guarantee fun r => ∀ a, r = .ok a → R a := by
  induction p with
  | ret a =>
    intro b hb
    cases hb
    exact hp
  | throw e => intro b hb; cases hb
  | call o k ih => exact ⟨hp.1, fun r hr => ih r (hp.2 r hr)⟩

theorem meets_ofExcept {r : Except S.Exn α} (h : ∀ a, r = .ok a → R a) :
    (ofExcept r).Meets rely guarantee R := by
  cases r with
  | ok a => exact h a rfl
  | error e => trivial

theorem meets_catching {p : Prog S α} {handler : S.Exn → Prog S α}
    (hp : p.Meets rely guarantee R)
    (hh : ∀ e, (handler e).Meets rely guarantee R) :
    (p.catching handler).Meets rely guarantee R :=
  meets_bind (meets_attempt hp) fun r hr => by
    cases r with
    | ok a => exact hr a rfl
    | error e => exact hh e

theorem meets_ensuring {p : Prog S α} {cleanup : Prog S Unit}
    (hp : p.Meets rely guarantee R) (hc : cleanup.Uses guarantee) :
    (p.ensuring cleanup).Meets rely guarantee R :=
  meets_bind (meets_attempt hp) fun _ hr => meets_bind (.of_uses hc) fun _ _ => meets_ofExcept hr

theorem meets_collect {f : β → Prog S γ} {bs : List β} {each : γ → Prop}
    (hf : ∀ b ∈ bs, (f b).Meets rely guarantee each) :
    (collect f bs).Meets rely guarantee fun cs => ∀ c ∈ cs, each c := by
  induction bs with
  | nil => simp [collect]
  | cons b bs ih =>
    have htail := ih fun c hc => hf c (List.mem_cons_of_mem _ hc)
    refine meets_bind (hf b List.mem_cons_self) fun c hc => meets_bind htail fun cs hcs => ?_
    rw [meets_ret]
    intro d hd
    rcases List.mem_cons.mp hd with rfl | hd
    · exact hc
    · exact hcs d hd

theorem meets_forEach {f : β → Prog S Unit} {bs : List β}
    (hf : ∀ b ∈ bs, (f b).Meets rely guarantee fun _ => True) :
    (forEach f bs).Meets rely guarantee fun _ => True := by
  induction bs with
  | nil => trivial
  | cons b bs ih =>
    have htail := ih fun c hc => hf c (List.mem_cons_of_mem _ hc)
    exact meets_bind (hf b List.mem_cons_self) fun _ _ => htail

end Meets

section Uses

variable {allowed : S.Op → Prop}

theorem uses_all (p : Prog S α) : p.Uses fun _ => True := by
  induction p with
  | ret a => trivial
  | throw e => trivial
  | call o k ih => exact ⟨trivial, fun r _ => ih r⟩

theorem uses_perform {o : S.Op} (ho : allowed o) : (perform o).Uses allowed := meets_perform ho

theorem uses_bind {p : Prog S α} {f : α → Prog S β} (hp : p.Uses allowed)
    (hf : ∀ a, (f a).Uses allowed) : (p.bind f).Uses allowed := meets_bind hp fun a _ => hf a

theorem uses_ite {c : Prop} [Decidable c] {p q : Prog S α} (hp : p.Uses allowed)
    (hq : q.Uses allowed) : (if c then p else q).Uses allowed := by
  split
  · exact hp
  · exact hq

theorem uses_attempt {p : Prog S α} (hp : p.Uses allowed) : p.attempt.Uses allowed :=
  (meets_attempt hp).mono (fun _ ho => ho) fun _ _ => trivial

theorem uses_ofExcept (r : Except S.Exn α) : (ofExcept r).Uses allowed :=
  meets_ofExcept fun _ _ => trivial

theorem uses_catching {p : Prog S α} {handler : S.Exn → Prog S α} (hp : p.Uses allowed)
    (hh : ∀ e, (handler e).Uses allowed) : (p.catching handler).Uses allowed :=
  meets_catching hp hh

theorem uses_ensuring {p : Prog S α} {cleanup : Prog S Unit} (hp : p.Uses allowed)
    (hc : cleanup.Uses allowed) : (p.ensuring cleanup).Uses allowed := meets_ensuring hp hc

theorem uses_collect {f : β → Prog S γ} {bs : List β} (hf : ∀ b ∈ bs, (f b).Uses allowed) :
    (collect f bs).Uses allowed :=
  (meets_collect hf).mono (fun _ ho => ho) fun _ _ => trivial

theorem uses_forEach {f : β → Prog S Unit} {bs : List β} (hf : ∀ b ∈ bs, (f b).Uses allowed) :
    (forEach f bs).Uses allowed := meets_forEach hf

theorem Uses.mono {more : S.Op → Prop} {p : Prog S α} (hp : p.Uses allowed)
    (h : ∀ o, allowed o → more o) : p.Uses more := Meets.mono hp h fun _ _ => trivial

end Uses

end Prog

end Interaction

import Mathlib.Data.List.Forall2
import Poma.Interaction.Execution

/-!
# The turns of a loop

A collecting loop is the runs of its body one after the other: each turn starts
from the state and the choices the turns before it left. Whatever the other
turns leave as it is, one turn finds as the loop found it and the loop ends with
as the turn left it.
-/

namespace Interaction

/-- The first part of a sequence is guaranteed what the sequence is. -/
theorem Prog.Meets.of_bind {S : Signature} {α β : Type}
    {rely : (o : S.Op) → Except S.Exn (S.Ans o) → Prop} {guarantee : S.Op → Prop} {R : β → Prop}
    {p : Prog S α} {f : α → Prog S β} (h : (p.bind f).Meets rely guarantee R) :
    p.Meets rely guarantee fun _ => True := by
  induction p with
  | ret a => trivial
  | throw e => trivial
  | call o k ih => exact ⟨h.1, fun r hr => ih r (h.2 r hr)⟩

namespace System

variable {S : Signature} {σ β γ δ : Type} (M : System S σ) (f : β → Prog S γ)

/-- The runs of the body of a collecting loop. -/
def turns : List β → List M.Choice → σ → List (Run S σ γ)
  | [], _, _ => []
  | b :: bs, cs, s =>
    M.run (f b) cs s ::
      turns bs (cs.drop (M.run (f b) cs s).trace.length) (M.run (f b) cs s).state

variable {M f}

/-- A loop that returns has made its first turn and then the others. -/
theorem run_collect_cons {b : β} {bs : List β} {cs : List M.Choice} {s : σ} {vs : List γ}
    (h : (M.run (Prog.collect f (b :: bs)) cs s).outcome = .returned vs) :
    ∃ v rest, vs = v :: rest ∧ (M.run (f b) cs s).outcome = .returned v ∧
      (M.run (Prog.collect f bs) (cs.drop (M.run (f b) cs s).trace.length)
        (M.run (f b) cs s).state).outcome = .returned rest ∧
      (M.run (Prog.collect f (b :: bs)) cs s).state =
        (M.run (Prog.collect f bs) (cs.drop (M.run (f b) cs s).trace.length)
          (M.run (f b) cs s).state).state := by
  rw [Prog.collect, run_bind] at h ⊢
  cases hfirst : (M.run (f b) cs s).outcome with
  | raised e =>
    rw [hfirst] at h
    cases h
  | stopped =>
    rw [hfirst] at h
    cases h
  | returned v =>
    simp only [hfirst, Run.after, run_bind] at h ⊢
    cases hrest : (M.run (Prog.collect f bs) (cs.drop (M.run (f b) cs s).trace.length)
        (M.run (f b) cs s).state).outcome with
    | raised e =>
      rw [hrest] at h
      cases h
    | stopped =>
      rw [hrest] at h
      cases h
    | returned rest =>
      simp only [hrest, run] at h
      exact ⟨v, rest, (Outcome.returned.inj h).symm, rfl, rfl, by simp only [run]⟩

/-- A loop that returns has collected what its turns returned. -/
theorem turns_outcome {bs : List β} {cs : List M.Choice} {s : σ} {vs : List γ}
    (h : (M.run (Prog.collect f bs) cs s).outcome = .returned vs) :
    (M.turns f bs cs s).map (·.outcome) = vs.map .returned := by
  induction bs generalizing cs s vs with
  | nil =>
    obtain rfl : [] = vs := Outcome.returned.inj h
    rfl
  | cons b bs ih =>
    obtain ⟨v, rest, rfl, hfirst, hrest, _⟩ := run_collect_cons h
    rw [turns, List.map_cons, List.map_cons, hfirst, ih hrest]

/-- What every turn makes of its element, the loop makes of the list. -/
theorem forall₂_of_returned {R : β → γ → Prop}
    (hf : ∀ b cs s v, (M.run (f b) cs s).outcome = .returned v → R b v) {bs : List β}
    {cs : List M.Choice} {s : σ} {vs : List γ}
    (h : (M.run (Prog.collect f bs) cs s).outcome = .returned vs) : List.Forall₂ R bs vs := by
  induction bs generalizing cs s vs with
  | nil =>
    obtain rfl : [] = vs := Outcome.returned.inj h
    exact .nil
  | cons b bs ih =>
    obtain ⟨v, rest, rfl, hfirst, hrest, _⟩ := run_collect_cons h
    exact .cons (hf b cs s v hfirst) (ih hrest)

variable {g : σ → δ}

/-- What no turn changes, the loop does not change. -/
theorem keeps_collect {bs : List β} (hkeep : ∀ b ∈ bs, ∀ cs s, g (M.run (f b) cs s).state = g s)
    {cs : List M.Choice} {s : σ} {vs : List γ}
    (h : (M.run (Prog.collect f bs) cs s).outcome = .returned vs) :
    g (M.run (Prog.collect f bs) cs s).state = g s := by
  induction bs generalizing cs s vs with
  | nil => rfl
  | cons b bs ih =>
    obtain ⟨v, rest, rfl, _, hrest, hstate⟩ := run_collect_cons h
    rw [hstate, ih (fun c hc => hkeep c (List.mem_cons_of_mem _ hc)) hrest]
    exact hkeep b List.mem_cons_self cs s

/-- One turn of a loop that returns, where the other turns keep something: the turn finds it as the
loop did, and leaves it as the loop does. -/
theorem turn_alone {bs : List β} {i : Nat} {b : β} (hb : bs[i]? = some b)
    (hkeep : ∀ j c, j ≠ i → bs[j]? = some c → ∀ cs s, g (M.run (f c) cs s).state = g s)
    {cs : List M.Choice} {s : σ} {vs : List γ}
    (h : (M.run (Prog.collect f bs) cs s).outcome = .returned vs) {turn : Run S σ γ}
    (hturn : (M.turns f bs cs s)[i]? = some turn) :
    ∃ cs' s', turn = M.run (f b) cs' s' ∧ g s' = g s ∧
      g (M.run (Prog.collect f bs) cs s).state = g turn.state := by
  induction bs generalizing i cs s vs with
  | nil => cases hb
  | cons first bs ih =>
    obtain ⟨v, rest, rfl, _, hrest, hstate⟩ := run_collect_cons h
    cases i with
    | zero =>
      obtain rfl : first = b := Option.some.inj hb
      obtain rfl : M.run (f first) cs s = turn := Option.some.inj hturn
      refine ⟨cs, s, rfl, rfl, ?_⟩
      rw [hstate]
      apply keeps_collect _ hrest
      intro c hc
      obtain ⟨j, hj⟩ := List.getElem?_of_mem hc
      exact hkeep (j + 1) c (Nat.succ_ne_zero j) hj
    | succ i =>
      obtain ⟨cs', s', hrun, hfound, hleft⟩ := ih hb
        (fun j c hj hc => hkeep (j + 1) c (fun heq => hj (Nat.succ.inj heq)) hc) hrest hturn
      refine ⟨cs', s', hrun, ?_, hstate ▸ hleft⟩
      rw [hfound]
      exact hkeep 0 first (Nat.succ_ne_zero i).symm rfl cs s

end System

end Interaction

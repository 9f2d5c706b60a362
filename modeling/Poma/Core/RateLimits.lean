import Mathlib.Algebra.Order.Group.Basic
import Mathlib.Data.List.Chain
import Mathlib.Tactic.Abel

/-!
# Rate limits over event times

Times of events in the order in which they happen. A budget bounds the events of
every half-open window, a gap keeps neighbours apart. Both survive one more event
when they are checked on the recent events alone, and what is recent now is
recent among what was recent before.
-/

namespace RateLimits

variable {T : Type} [AddCommGroup T] [LinearOrder T]

/-- The times less than a window ago. -/
def recent (window now : T) (times : List T) : List T :=
  times.filter fun time => now - time < window

/-- No half-open window holds more events than the budget. -/
def WithinBudget (window : T) (budget : Nat) (times : List T) : Prop :=
  ∀ start, (times.filter fun time => start ≤ time ∧ time < start + window).length ≤ budget

/-- Neighbouring events are a gap apart at least. -/
def Spaced (gap : T) (times : List T) : Prop :=
  times.IsChain fun earlier later => gap ≤ later - earlier

variable {window gap now : T} {budget : Nat} {times : List T}

/-- One more event keeps the gap where the last one is a gap ago. -/
theorem Spaced.append (h : Spaced gap times)
    (hlast : ∀ time, times.getLast? = some time → gap ≤ now - time) :
    Spaced gap (times ++ [now]) := by
  unfold Spaced
  rw [List.isChain_append]
  refine ⟨h, List.isChain_singleton _, ?_⟩
  intro earlier hearlier later hlater
  obtain rfl : now = later := by simpa using hlater
  exact hlast earlier hearlier

/-- The last event is the last recent one, or it is a window ago. -/
theorem getLast?_recent (window now : T) {time : T} (h : times.getLast? = some time) :
    (recent window now times).getLast? = some time ∨ window ≤ now - time := by
  by_cases hage : now - time < window
  · obtain ⟨before, rfl⟩ := List.getLast?_eq_some_iff.mp h
    left
    unfold recent
    rw [List.filter_append, List.filter_cons_of_pos (by simpa using hage), List.filter_nil,
      List.getLast?_concat]
  · exact Or.inr (not_lt.mp hage)

variable [IsOrderedAddMonoid T]

/-- What was recent before is all that can be recent now. -/
theorem recent_recent {earlier : T} (h : earlier ≤ now) :
    recent window now (recent window earlier times) = recent window now times := by
  unfold recent
  rw [List.filter_filter]
  apply List.filter_congr
  intro time _
  have hage : earlier - time ≤ now - time := sub_le_sub_right h time
  rw [Bool.and_eq_left_iff_imp, decide_eq_true_eq, decide_eq_true_eq]
  exact fun hnow => hage.trans_lt hnow

/-- One more event keeps the budget where the recent events are fewer. -/
theorem WithinBudget.append (h : WithinBudget window budget times)
    (hrecent : (recent window now times).length < budget) :
    WithinBudget window budget (times ++ [now]) := by
  intro start
  rw [List.filter_append, List.length_append]
  by_cases hnow : start ≤ now ∧ now < start + window
  · have hsub : (times.filter fun time => start ≤ time ∧ time < start + window).length ≤
        (recent window now times).length := by
      apply List.Sublist.length_le
      apply List.monotone_filter_right
      intro time htime
      rw [decide_eq_true_eq] at htime ⊢
      have hlate : now - time ≤ now - start := sub_le_sub_left htime.1 now
      exact hlate.trans_lt (sub_lt_iff_lt_add'.mpr hnow.2)
    have hone : ([now].filter fun time => start ≤ time ∧ time < start + window).length ≤ 1 :=
      List.length_filter_le _ _
    omega
  · have hnone : ([now].filter fun time => start ≤ time ∧ time < start + window) = [] := by
      simp [hnow]
    rw [hnone, List.length_nil, add_zero]
    exact h start

end RateLimits

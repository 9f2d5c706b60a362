import Mathlib.Algebra.BigOperators.Group.List.Basic
import Mathlib.Algebra.Order.BigOperators.Group.List
import Mathlib.Algebra.Order.Ring.Rat
import Mathlib.Tactic.Linarith
import Poma.Core.Lists

/-!
# Sums over groups

A list is put into groups by a key, each group is summed up, and the sums are
added: nothing is lost and nothing is counted twice, in whatever order the keys
are taken.
-/

namespace Poma

section Groups

variable {α κ : Type} [DecidableEq κ] (key : α → κ) (value : α → ℚ)

/-- Among keys without repetition, one takes the whole amount. -/
theorem sum_map_ite_eq_of_mem {keys : List κ} (hnodup : keys.Nodup) {k : κ} (hmem : k ∈ keys)
    (amount : ℚ) : (keys.map fun other => if k = other then amount else 0).sum = amount := by
  induction keys with
  | nil => cases hmem
  | cons other keys ih =>
    obtain ⟨hnew, hnodup⟩ := List.nodup_cons.mp hnodup
    rw [List.map_cons, List.sum_cons]
    by_cases hsame : k = other
    · subst hsame
      have hrest : (keys.map fun other => if k = other then amount else 0).sum = 0 := by
        apply List.sum_eq_zero
        intro x hx
        obtain ⟨other, hother, rfl⟩ := List.mem_map.mp hx
        apply if_neg
        rintro rfl
        exact hnew hother
      rw [if_pos rfl, hrest, add_zero]
    · rw [if_neg hsame, zero_add]
      exact ih hnodup ((List.mem_cons.mp hmem).resolve_left hsame)

/-- The sums of all groups add up to the sum of the list. -/
theorem sum_groups {keys : List κ} (hnodup : keys.Nodup) {xs : List α}
    (hkeys : ∀ x ∈ xs, key x ∈ keys) :
    (keys.map fun k => ((xs.filter fun x => key x = k).map value).sum).sum =
      (xs.map value).sum := by
  induction xs with
  | nil => simp
  | cons x xs ih =>
    have hsplit (k : κ) : (((x :: xs).filter fun x => key x = k).map value).sum =
        (if key x = k then value x else 0) + ((xs.filter fun x => key x = k).map value).sum := by
      by_cases h : key x = k <;> simp [h]
    simp only [hsplit]
    rw [List.sum_map_add, sum_map_ite_eq_of_mem hnodup (hkeys x List.mem_cons_self),
      ih fun y hy => hkeys y (List.mem_cons_of_mem _ hy), List.map_cons, List.sum_cons]

/-- The keys of a list, each once and in order. -/
def sortedKeys (xs : List α) [LE κ] [DecidableLE κ] : List κ :=
  (xs.map key).dedup.insertionSort (· ≤ ·)

variable [LE κ] [DecidableLE κ] {key} {xs : List α}

theorem mem_sortedKeys {k : κ} : k ∈ sortedKeys key xs ↔ ∃ x ∈ xs, key x = k := by
  rw [sortedKeys, List.mem_insertionSort, List.mem_dedup, List.mem_map]

theorem nodup_sortedKeys : (sortedKeys key xs).Nodup := by
  unfold sortedKeys
  rw [(List.perm_insertionSort _ _).nodup_iff]
  exact List.nodup_dedup _

/-- The sorted keys depend on the members of a list, and on nothing else. -/
theorem sortedKeys_perm [Std.IsLinearOrder κ] {ys : List α} (hperm : xs.Perm ys) :
    sortedKeys key xs = sortedKeys key ys :=
  insertionSort_dedup_congr fun _ => (hperm.map key).mem_iff

/-- The sums of the groups of all keys add up to the sum of the list. -/
theorem sum_sortedKeys (value : α → ℚ) :
    ((sortedKeys key xs).map fun k => ((xs.filter fun x => key x = k).map value).sum).sum =
      (xs.map value).sum :=
  sum_groups key value nodup_sortedKeys fun x hx => mem_sortedKeys.mpr ⟨x, hx, rfl⟩

end Groups

end Poma
